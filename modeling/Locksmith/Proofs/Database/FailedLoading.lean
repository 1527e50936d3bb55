import Locksmith.Proofs.Database.WorldOrder

namespace Locksmith

/-- References were given away in increasing order from one on, and there are `room` left. -/
structure Chunk.Store.Roomy (c : Chunk.Store) (room : Nat) : Prop where
  given : ∀ r, c.chunks.contains r = true → 0 < r.num.toNat ∧ r.num.toNat < c.next.num.toNat
  room : 0 < c.next.num.toNat ∧ c.next.num.toNat + room < 2 ^ 64

namespace Database

def LoadError.isEarly : LoadError → Bool
  | badDocument _ | badNumber _ _ | unknownType _ _ | unknownFlag _ _
  | unknownAttributeFlag _ _ _ | adding _ | placing _ _ => true
  | unknownLockFlag _ _ _ | badLock _ _ _ | locking _ | namelessChannel | unreadable _
  | inFile _ _ => false

namespace Store

variable {s s' : Store} {chunks : Chunk.Store} {d : Dbref} {k : Nat} {r : ChunkRef}
  {loose : List ChunkRef}

/-- Next to the chunks that were there before there are those of locks. -/
structure Extends (chunks : Chunk.Store) (room : Nat) (s : Store) : Prop where
  owned : s.Owned chunks.chunks.keys room
  old : ∀ r p, chunks.chunks.get? r = some p → s.chunks.chunks.get? r = some p

theorem empty_extends (settings : Settings) (h : chunks.Roomy k) :
    Extends chunks k (empty settings chunks) where
  owned :=
    { numbered := fun _ _ h => by cases h
      keyed := fun _ _ _ h => by cases h
      held := fun _ _ _ h => by cases h
      apart := fun _ _ _ _ _ _ h => by cases h
      looseHeld := fun _ hr => SortedMap.mem_keys.1 hr
      looseApart := chunks.chunks.nodup_keys
      free := fun _ _ _ h => by cases h
      owned := fun _ hr => .inl (SortedMap.mem_keys.2 hr)
      given := h.given
      room := h.room }
  old _ _ h := h

theorem record?_withLock {o : Object} (ho : s.get? d = some o) (name : Bytes) (creator : Dbref)
    (flags : LockFlags) (p : Packed) :
    (s.withLock d o name creator flags p).record? d name.toLower =
      some ⟨name, creator, flags, s.chunks.next⟩ := by
  have ho' : get? { s with chunks := (s.chunks.append p).2 } d = some o := ho
  rw [withLock, record?_forget, record?_modify ho', if_pos rfl]
  exact SortedMap.get?_insert_self _ _ _

/-- Setting a lock leaves all chunks alone that belong to no lock. -/
theorem Relocked.chunk_loose {name : Bytes} {creator : Dbref} {flags : LockFlags}
    (h : Relocked s d name creator flags s') (howned : s.Owned loose k) (hr : r ∈ loose) :
    s'.chunks.chunks.get? r = s.chunks.chunks.get? r := by
  have hother {o : Object} (ho : s.get? d = some o) (l : LockRecord)
      (hl : o.lock? name = some l) (href : r = l.ref) :
      r.isZero = true :=
    absurd (href ▸ hr) (howned.free d _ l ((record?_of_get? ho _).trans hl))
  cases h with
  | same => rfl
  | freed there => rw [chunk_forget _ (hother there), chunks_modify]
  | put there p =>
    rw [chunk_forget _ (hother there), chunks_modify]
    -- the chunk of the new lock has a number that was never given before
    refine SortedMap.get?_insert_of_ne _ _ fun hnext => ?_
    have hlt := (howned.given r (howned.looseHeld r hr)).2
    rw [hnext] at hlt
    exact Nat.lt_irrefl _ hlt

end Store

namespace Db

open Store

variable {α β γ : Type} {chunks : Chunk.Store}

theorem extends_loadInvariant : LoadInvariant (Extends chunks) where
  mono j k s h := ⟨h.owned.mono (Nat.le_add_right _ _), h.old⟩
  add k s s' o h hunplaced hlocks hadd := by
    refine ⟨owned_loadInvariant.add k s s' o h.owned hunplaced hlocks hadd, ?_⟩
    obtain ⟨-, -, rfl⟩ := add_eq_ok.1 hadd
    exact h.old
  move k s s' d dest h hmove := by
    refine ⟨owned_loadInvariant.move k s s' d dest h.owned hmove, ?_⟩
    rw [(move_kept hmove).2]
    exact h.old
  setLock k d name code creator flags := by
    intro σ h
    refine ⟨owned_loadInvariant.setLock k d name code creator flags σ h.owned, fun r p hp => ?_⟩
    have hrelocked := setLock_relocked d name code creator flags σ rfl
    rw [hrelocked.chunk_loose h.owned (SortedMap.mem_keys.2 (Option.isSome_of_eq_some hp))]
    exact h.old r p hp
  addChannel k s c h := ⟨owned_loadInvariant.addChannel k s c h.owned, h.old⟩

/-- If the work fails, then not early. -/
def FailsLate (x : Db LoadError α) : Prop :=
  Ensures (fun _ => True) x fun out _ => ∀ e, out = .error e → e.isEarly = false

namespace FailsLate

theorem of_ok {x : Db LoadError α} (h : ∀ σ, ∃ a, (x.run.run σ).1 = .ok a) : FailsLate x := by
  intro σ _ e he
  obtain ⟨a, ha⟩ := h σ
  cases ha.symm.trans he

theorem adapt {ε : Type} {x : Db ε α} {f : ε → LoadError} (h : ∀ e, (f e).isEarly = false) :
    FailsLate (ExceptT.adapt f x) := by
  intro σ _ e he
  change (x.run.run σ).1.mapError f = .error e at he
  rcases hout : (x.run.run σ).1 with e' | a
  · rw [hout] at he
    cases he
    exact h e'
  · rw [hout] at he
    cases he

theorem throw {e : LoadError} (h : e.isEarly = false) :
    FailsLate (MonadExcept.throw e : Db LoadError α) :=
  Ensures.throw fun _ _ e' he' => by
    cases he'
    exact h

theorem bind {x : Db LoadError α} {f : α → Db LoadError β} (hx : FailsLate x)
    (hf : ∀ a, FailsLate (f a)) : FailsLate (x >>= f) := by
  refine Ensures.bind hx (fun a => (hf a).imp (fun _ _ => trivial) fun _ _ h => h)
    fun e _ h e' he' => ?_
  cases he'
  exact h e rfl

theorem forIn {f : γ → Db LoadError Unit} (h : ∀ a, FailsLate (f a)) (l : List γ) :
    FailsLate (ForIn.forIn l PUnit.unit fun a _ => do f a; return .yield PUnit.unit) := by
  induction l with
  | nil => exact of_ok fun _ => ⟨_, rfl⟩
  | cons a rest ih =>
    rw [List.forIn_cons]
    simp only [bind_assoc, pure_bind]
    exact .bind (h a) fun _ => ih

end FailsLate

theorem loadLock_failsLate (spec : ObjectSpec) (name : Bytes) (l : LockSpec) :
    FailsLate (loadLock spec name l) := by
  unfold loadLock
  rcases LockFlags.ofNames l.flags with flag | flags
  · exact .throw rfl
  · refine .bind (.of_ok fun _ => ⟨_, rfl⟩) fun s => ?_
    dsimp only
    rcases s.compiler.compileLoad l.source name with e | (_ | code)
    · exact .bind (.of_ok fun _ => ⟨_, rfl⟩) fun _ => .throw rfl
    · exact .of_ok fun _ => ⟨_, rfl⟩
    · exact .adapt fun _ => rfl

theorem loadChannel_failsLate (c : ChannelSpec) : FailsLate (loadChannel c) :=
  Ensures.ite (fun _ => FailsLate.throw rfl) fun _ => FailsLate.of_ok fun _ => ⟨_, rfl⟩

theorem furnish_failsLate (l : List ObjectSpec) (channels : List ChannelSpec) :
    FailsLate (furnish l channels) := by
  have hlocks (spec : ObjectSpec) : FailsLate (loadLocks spec) :=
    .bind (.forIn (fun e : Bytes × LockSpec => loadLock_failsLate spec e.1 e.2) _) fun _ =>
      .of_ok fun _ => ⟨_, rfl⟩
  refine .bind (.forIn hlocks l) fun _ =>
    .bind (.forIn loadChannel_failsLate channels) fun _ => ?_
  exact .of_ok fun _ => ⟨_, rfl⟩

/-- A load that fails early has not touched the chunk store. -/
theorem loadText_early (source : Bytes) :
    Ensures (·.chunks = chunks) (loadText source) fun out s =>
      ∀ e, out = .error e → e.isEarly = true → s.chunks = chunks := by
  unfold loadText
  rcases WorldFile.parse source with e | w
  · exact .throw fun _ h _ _ _ => h
  · dsimp only
    rw [loadWorld_eq]
    refine .bind (.forIn_keeps ?_ w.objects) (fun _ => ?_) fun _ _ h _ _ _ => h
    · exact fun spec =>
        .change (fun _ _ h hadd => (addWritten_kept hadd).2.trans h) fun _ _ h _ => h
    refine .bind (.forIn_keeps ?_ w.inOrder) (fun _ => ?_) fun _ _ h _ _ _ => h
    · exact fun spec =>
        .change (fun _ _ h hplace => (placeWritten_kept hplace).2.trans h) fun _ _ h _ => h
    -- only here are chunks written, and whatever fails here fails late
    refine (furnish_failsLate w.inOrder w.channels).imp (fun _ _ => trivial)
      fun out s hlate e he hearly => ?_
    rw [hlate e he] at hearly
    cases hearly

end Db

/-- What is left in a chunk store: the chunks that were there, unchanged, and one of its own for
each lock record. -/
structure Store.Leftover (chunks : Chunk.Store) (s : Store) : Prop where
  old : ∀ r p, chunks.chunks.get? r = some p → s.chunks.chunks.get? r = some p
  held : ∀ r, s.chunks.chunks.contains r = true ↔
    chunks.chunks.contains r = true ∨ ∃ d key l, s.record? d key = some l ∧ l.ref = r
  new : ∀ d key l, s.record? d key = some l → chunks.chunks.contains l.ref = false
  apart : ∀ d key l d' key' l', s.record? d key = some l → s.record? d' key' = some l' →
    l.ref = l'.ref → d = d' ∧ key = key'

namespace Store

variable {s : Store} {chunks : Chunk.Store} {k : Nat}

theorem Extends.leftover (h : Extends chunks k s) : Leftover chunks s where
  old := h.old
  held r := by
    constructor
    · exact fun hr => (h.owned.owned r hr).imp_left SortedMap.mem_keys.1
    · rintro (hr | ⟨d, key, l, hl, rfl⟩)
      · exact h.owned.looseHeld r (SortedMap.mem_keys.2 hr)
      · exact h.owned.held d key l hl
  new d key l hl := by
    rw [Bool.eq_false_iff]
    exact fun hr => h.owned.free d key l hl (SortedMap.mem_keys.2 hr)
  apart := h.owned.apart

/-- The chunks are those that were there just if there is no lock record. -/
theorem Leftover.same_iff (h : Leftover chunks s) :
    s.chunks.chunks = chunks.chunks ↔ ∀ d key, s.record? d key = none := by
  constructor
  · intro hsame d key
    rw [Option.eq_none_iff_forall_ne_some]
    intro l hl
    have hheld := (h.held l.ref).2 (.inr ⟨d, key, l, hl, rfl⟩)
    rw [hsame, h.new d key l hl] at hheld
    cases hheld
  · intro hnone
    refine SortedMap.ext_get? fun r => ?_
    rcases hr : chunks.chunks.get? r with _ | p
    · rw [← Option.not_isSome_iff_eq_none]
      intro hsome
      rcases (h.held r).1 hsome with hold | ⟨d, key, l, hl, -⟩
      · rw [SortedMap.contains, hr] at hold
        cases hold
      · rw [hnone] at hl
        cases hl
    · exact h.old r p hr

end Store

namespace Db

open Store

variable {source : Bytes} {settings : Settings} {chunks : Chunk.Store} {e : LoadError}
  {σ : Session}

theorem leftover_loadText (settings : Settings) (hroom : chunks.Roomy (lockCount source)) :
    Leftover chunks ((loadText source).run.run ⟨.empty settings chunks, []⟩).2.store := by
  have hstart : Extends chunks (0 + lockCount source) (.empty settings chunks) := by
    rw [Nat.zero_add]
    exact empty_extends settings hroom
  exact (loadText_ensures extends_loadInvariant source ⟨.empty settings chunks, []⟩
    hstart).leftover

/-- A failed load leaves the chunks of the locks that it has set. The chunk store is as it was
just if there is no such lock, as when the load fails before it comes to locks. -/
theorem loadText_leftover (hroom : chunks.Roomy (lockCount source))
    (h : (loadText source).run.run ⟨.empty settings chunks, []⟩ = (.error e, σ)) :
    Leftover chunks σ.store ∧
    (σ.store.chunks.chunks = chunks.chunks ↔ ∀ d key, σ.store.record? d key = none) ∧
      (e.isEarly = true → σ.store.chunks = chunks) := by
  have hleftover := leftover_loadText settings hroom
  have hearly := loadText_early source ⟨.empty settings chunks, []⟩ rfl
  rw [h] at hleftover hearly
  exact ⟨hleftover, hleftover.same_iff, hearly e rfl⟩

def namelessWorld : Bytes :=
  "objects:\n- id: 1\n  locks:\n    Use: '#true'\nchannels:\n- private: true"

def lockedOne : ObjectSpec :=
  { ObjectSpec.thing [] with name := [], locks := [("Use", ⟨WorldFile.always, [], none⟩)] }

theorem parse_namelessWorld :
    WorldFile.parse namelessWorld = .ok ⟨[lockedOne], [⟨[], true, []⟩]⟩ := by
  decide +kernel

theorem loadLocks_lockedOne {s : Store} {o : Object} (ho : s.get? 1 = some o)
    (hc : s.chunks.compression.Supported) :
    Ensures (· = s) (loadLocks lockedOne) fun out s' =>
      out = .ok () ∧ s'.record? 1 "use" ≠ none := by
  have hlock :
      Ensures (· = s) (loadLock lockedOne "Use" ⟨WorldFile.always, [], none⟩) fun out s' =>
      out = .ok () ∧ s'.record? 1 "use" ≠ none := by
    apply Ensures.store_bind
    rintro s rfl
    dsimp only
    rw [WorldFile.compileLoad_always]
    refine .adapt_ok ((setLock_withLock rfl ho hc (by decide) _ _).imp (fun _ h => h) ?_)
    rintro _ _ ⟨hout, p, -, rfl⟩
    exact ⟨hout, Option.ne_none_iff_exists'.2 ⟨_, record?_withLock ho _ _ _ p⟩⟩
  unfold loadLocks
  rw [lockedOne, List.mergeSort_singleton, List.forIn_cons]
  simp only [bind_assoc, pure_bind, List.forIn_nil]
  exact .bind_ok hlock (.pure fun _ h => ⟨rfl, h⟩)

theorem loadText_namelessWorld :
    ∃ σ, (loadText namelessWorld).run.run ⟨.empty .standard (.empty .memory .none), []⟩ =
      (.error .namelessChannel, σ) ∧
      σ.store.record? 1 "use" ≠ none := by
  obtain ⟨s, hadd, ⟨o, ho⟩, hc⟩ :
      ∃ s, (Store.empty .standard (.empty .memory .none)).addAll [lockedOne] = .ok s ∧
      (∃ o, s.get? 1 = some o) ∧ s.chunks.compression.Supported := ⟨_, rfl, ⟨_, rfl⟩, .inl rfl⟩
  have horder : WorldFile.inOrder ⟨[lockedOne], [⟨[], true, []⟩]⟩ = [lockedOne] :=
    List.mergeSort_singleton _
  have hplace : s.placeAll (WorldFile.inOrder ⟨[lockedOne], [⟨[], true, []⟩]⟩) = .ok s := by
    rw [horder]
    rfl
  have hfurnish : Ensures (· = s) (furnish [lockedOne] [⟨[], true, []⟩]) fun out s' =>
      out = .error .namelessChannel ∧ s'.record? 1 "use" ≠ none := by
    unfold furnish
    simp only [List.forIn_cons, List.forIn_nil, bind_assoc, pure_bind]
    exact .bind_ok (loadLocks_lockedOne ho hc) (.throw fun _ h => ⟨rfl, h⟩)
  obtain ⟨hout, hrecord⟩ := hfurnish ⟨s, []⟩ rfl
  refine ⟨_, ?_, hrecord⟩
  have hrun := loadWorld_run (σ := ⟨.empty .standard (.empty .memory .none), []⟩) hadd hplace
  rw [horder] at hrun
  rw [loadText, parse_namelessWorld]
  exact hrun.trans (Prod.ext hout rfl)

theorem roomy_namelessWorld :
    (Chunk.Store.empty .memory .none).Roomy (lockCount namelessWorld) where
  given r hr := by cases hr
  room := by
    rw [lockCount, parse_namelessWorld]
    decide

theorem loadText_leftover_nameless :
    (Chunk.Store.empty .memory .none).Roomy (lockCount namelessWorld) ∧
    ∃ σ, (loadText namelessWorld).run.run ⟨.empty .standard (.empty .memory .none), []⟩ =
      (.error .namelessChannel, σ) ∧
      Leftover (.empty .memory .none) σ.store ∧ σ.store.record? 1 "use" ≠ none ∧
      σ.store.chunks.chunks ≠ (Chunk.Store.empty .memory .none).chunks := by
  obtain ⟨σ, hrun, hrecord⟩ := loadText_namelessWorld
  obtain ⟨hleftover, hsame, -⟩ := loadText_leftover roomy_namelessWorld hrun
  exact ⟨roomy_namelessWorld, σ, hrun, hleftover, hrecord, fun h => hrecord (hsame.1 h 1 "use")⟩

/-- A failed load may leave a chunk that was not there before. -/
theorem loadText_leaves_chunk :
    ¬∀ (source : Bytes) (settings : Settings) (chunks : Chunk.Store) (e : LoadError)
      (σ : Session), (loadText source).run.run ⟨.empty settings chunks, []⟩ = (.error e, σ) →
        σ.store.chunks.chunks = chunks.chunks := by
  intro hall
  obtain ⟨σ, hrun, hrecord⟩ := loadText_namelessWorld
  have hleftover := leftover_loadText .standard roomy_namelessWorld
  rw [hrun] at hleftover
  exact hrecord (hleftover.same_iff.1 (hall _ _ _ _ σ hrun) 1 "use")

end Db
end Database
end Locksmith
