import Locksmith.Proofs.Database.LockChanges

namespace Locksmith
namespace Database

def Slot.object? : Slot → Option Object
  | live o => some o
  | retired => none

namespace Store

variable {s s₀ : Store} {d : Dbref} {o : Object} {loose : List ChunkRef} {k : Nat}
  {about : Dbref → Bytes → Prop}

theorem get?_eq_bind (s : Store) (d : Dbref) :
    s.get? d = (s.slots.get? d).bind Slot.object? := by
  rw [get?]
  rcases s.slots.get? d with _ | (_ | _)
  · rfl
  · rfl
  · rfl

theorem get?_insert (s : Store) (d : Dbref) (slot : Slot) (a : Dbref) :
    { s with slots := s.slots.insert d slot }.get? a = if a =
      d then slot.object? else s.get? a := by
  rw [get?_eq_bind]
  by_cases ha : a = d
  · rw [if_pos ha, ha, SortedMap.get?_insert_self, Option.bind_some]
  · rw [if_neg ha, SortedMap.get?_insert_of_ne _ _ ha, ← get?_eq_bind]

/-- What adding an object does, and what it asks for. -/
theorem add_eq_ok {s' : Store} :
    s.add o = .ok s' ↔
      o.id.isSentinel = false ∧ s.slots.get? o.id = none ∧
      s' = { s with slots := s.slots.insert o.id (.live o) } := by
  unfold Store.add
  rcases o.id.isSentinel with _ | _
  · by_cases hfree : s.slots.get? o.id = none
    · simp [SortedMap.contains, hfree, eq_comm]
    · have htaken : s.slots.contains o.id = true := Option.isSome_iff_ne_none.2 hfree
      simp [htaken, hfree]
  · simp

/-- What a move does, and what it asks for. -/
theorem move_eq_ok {dest : Dbref} {s' : Store} (h : s.move d dest = .ok s') :
    ∃ o, s.get? d = some o ∧ (dest = .nothing ∨ (s.get? dest).isSome) ∧
      s.meets d (s.slots.size + 1) dest = false ∧
      s' = ((s.modify o.location (·.dropItem d)).modify d ({ · with location := dest })).modify
        dest (·.addItem d) := by
  unfold Store.move at h
  split at h
  · cases h
  · rename_i o ho
    split at h
    · cases h
    · rename_i hdest
      split at h
      · cases h
      · rename_i hmeets
        cases h
        refine ⟨o, ho, ?_, Bool.eq_false_iff.2 hmeets, rfl⟩
        by_cases hnothing : dest = .nothing
        · exact .inl hnothing
        · refine .inr (Option.isSome_iff_ne_none.2 fun hnone => hdest ⟨hnothing, ?_⟩)
          rw [hnone]
          rfl

theorem kept?_modify_of_locks (s : Store) (d : Dbref) (f : Object → Object)
    (hf : ∀ o, (f o).locks = o.locks) (d' : Dbref) (key : Bytes) :
    (s.modify d f).kept? d' key = s.kept? d' key := by
  rw [kept?, get?_modify]
  split
  · rename_i hd
    rw [kept?, hd, Option.map_map]
    congr 1
    funext o
    rw [Function.comp_apply, hf]
  · rfl

/-- A change that leaves all locks where they are. -/
theorem Kept.modify (h : Kept about s₀ loose k s) (d : Dbref) (f : Object → Object)
    (hid : ∀ o, (f o).id = o.id) (hf : ∀ o, (f o).locks = o.locks) :
    Kept about s₀ loose k (s.modify d f) := by
  have hkept := kept?_modify_of_locks s d f hf
  refine h.step (h.owned.congr (chunks_modify s d f) (h.owned.numbered_modify d hid) ?_) ?_ ?_
    ?_
  · exact fun d' key => congrArg Option.join (hkept d' key)
  · exact fun d' key _ => hkept d' key
  · exact fun _ _ _ _ => by rw [chunks_modify]
  · exact fun d' hd' => retired_modify hd' d f

/-- A number without locks comes to stand for something else that has none. -/
theorem Kept.fill (h : Kept about s₀ loose k s) {slot : Slot}
    (hnone : ∀ key, s.record? d key = none)
    (hlive : ∀ o, slot = .live o → (o.id = d ∧ d.isSentinel = false) ∧ o.locks = .empty)
    (hretired : s.slots.get? d = some .retired → slot = .retired)
    (habout : ∀ key, about d key) :
    Kept about s₀ loose k { s with slots := s.slots.insert d slot } := by
  have hget (d' : Dbref) (hne : d' ≠ d) :
      { s with slots := s.slots.insert d slot }.get? d' = s.get? d' := by
    rw [get?_insert, if_neg hne]
  have hself : { s with slots := s.slots.insert d slot }.get? d = slot.object? := by
    rw [get?_insert, if_pos rfl]
  refine h.step (h.owned.congr rfl ?_ ?_) ?_ (fun _ _ _ _ => rfl) ?_
  · intro d' o ho
    by_cases hd : d' = d
    · rw [hd, hself] at ho
      rcases slot with o' | _
      · cases ho
        exact hd ▸ (hlive o rfl).1
      · cases ho
    · exact h.owned.numbered d' o ((hget d' hd).symm.trans ho)
  · intro d' key
    by_cases hd : d' = d
    · rw [hd, hnone, record?, kept?, hself]
      rcases slot with o | _
      · change o.locks.get? key = none
        rw [(hlive o rfl).2]
        rfl
      · rfl
    · rw [record?, record?, kept?, kept?, hget d' hd]
  · intro d' key hnot
    rw [kept?, kept?, hget d' fun hd => hnot (hd ▸ habout key)]
  · intro d' hd'
    by_cases hd : d' = d
    · subst hd
      rw [SortedMap.get?_insert_self, hretired hd']
    · rw [SortedMap.get?_insert_of_ne _ _ hd, hd']

theorem Kept.add (h : Kept about s₀ loose k s) {s' : Store} (hadd : s.add o = .ok s')
    (hlocks : o.locks = .empty)
    (habout : s.slots.contains o.id = false → ∀ key, about o.id key) :
    Kept about s₀ loose k s' := by
  obtain ⟨hsentinel, hfree, rfl⟩ := add_eq_ok.1 hadd
  refine h.fill ?_ ?_ ?_
    (habout (Option.isSome_eq_false_iff.2 (Option.isNone_iff_eq_none.2 hfree)))
  · intro key
    rw [record?, kept?, get?, hfree]
    rfl
  · intro o' ho'
    cases ho'
    exact ⟨⟨rfl, hsentinel⟩, hlocks⟩
  · intro hretired
    rw [hfree] at hretired
    cases hretired

theorem Kept.move (h : Kept about s₀ loose k s) {dest : Dbref} {s' : Store}
    (hmove : s.move d dest = .ok s') : Kept about s₀ loose k s' := by
  obtain ⟨o, -, -, -, rfl⟩ := move_eq_ok hmove
  have hout := h.modify o.location (·.dropItem d) (fun _ => rfl) fun _ => rfl
  have hmoved := hout.modify d ({ · with location := dest }) (fun _ => rfl) fun _ => rfl
  exact hmoved.modify dest (·.addItem d) (fun _ => rfl) fun _ => rfl

/-- What an object holds is left nowhere. -/
theorem Kept.empty_out (h : Kept about s₀ loose k s) (contents : List Dbref) :
    Kept about s₀ loose k
      (contents.foldl (fun s c => s.modify c ({ · with location := .nothing })) s) ∧
      ∀ key,
        (contents.foldl (fun s c => s.modify c ({ · with location := .nothing })) s).kept?
          d key = s.kept? d key := by
  induction contents generalizing s with
  | nil => exact ⟨h, fun _ => rfl⟩
  | cons c rest ih =>
    obtain ⟨hkept, hsame⟩ :=
      ih (h.modify c ({ · with location := .nothing }) (fun _ => rfl) fun _ => rfl)
    refine ⟨hkept, fun key => (hsame key).trans ?_⟩
    exact kept?_modify_of_locks s c ({ · with location := .nothing }) (fun _ => rfl) d key

theorem Kept.retire (h : Kept about s₀ loose k s) (ho : s.get? d = some o)
    (hlocks : o.locks = .empty) (habout : ∀ key, about d key) :
    Kept about s₀ loose k (s.retire o) ∧ (s.retire o).slots.get? d = some .retired := by
  obtain ⟨rfl, -⟩ := h.owned.numbered d o ho
  refine ⟨?_, SortedMap.get?_insert_self _ _ _⟩
  have hout := h.modify o.location (·.dropItem o.id) (fun _ => rfl) fun _ => rfl
  obtain ⟨hkept, hsame⟩ := hout.empty_out (d := o.id) o.contents
  refine hkept.fill ?_ ?_ (fun _ => rfl) habout
  · intro key
    rw [record?, hsame, kept?_modify_of_locks s o.location (·.dropItem o.id) fun _ => rfl,
      kept?_of_get? ho, hlocks]
    rfl
  · intro o' ho'
    cases ho'

end Store

namespace Db

open Store

variable {s₀ : Store} {d : Dbref} {k : Nat} {about : Dbref → Bytes → Prop}

theorem recycle_kept (habout : ∀ key, about d key) :
    Ensures (Guarded about s₀ [] k) (recycle d) fun _ s =>
      Kept about s₀ [] k s ∧ ((s₀.get? d).isSome → s.slots.get? d = some .retired) := by
  refine .bind (freeAllLocks_guarded habout) ?_ ?_
  · intro _
    refine .change ?_ ?_
    · rintro s s' ⟨h, o, ho, hlocks⟩ hs'
      rw [ho] at hs'
      cases hs'
      obtain ⟨hkept, hretired⟩ := h.toKept.retire ho hlocks habout
      exact ⟨hkept, fun _ => hretired⟩
    · rintro s e ⟨-, o, ho, -⟩ hs'
      rw [ho] at hs'
      cases hs'
  · rintro e s ⟨h, hnone⟩
    refine ⟨h.toKept, fun hsome => ?_⟩
    have hmap := h.created d
    rw [hnone, Option.map_none, eq_comm, Option.map_eq_none_iff] at hmap
    rw [hmap] at hsome
    cases hsome

end Db

/-- Something that is done to the objects or locks of a database. Objects are added without
locks. -/
inductive Operation where
  | add (o : Object) (unlocked : o.locks = .empty)
  | move (d dest : Dbref)
  | recycle (d : Dbref)
  | setLock (d : Dbref) (name : Bytes) (code : LockCode) (creator : Dbref) (flags : LockFlags)
  | setLockSource (player d : Dbref) (name source : Bytes) (flags : LockFlags)
  | freeLock (d : Dbref) (name : Bytes)
  | freeAllLocks (d : Dbref)
  | copyLocks (source d : Dbref)
  | restoreSnapshot (key : Option Bytes) (raw : Bytes)

namespace Operation

def perform (σ : Session) : Operation → Session
  | add o _ => ((Db.change (·.add o)).run.run σ).2
  | move d dest => ((Db.change (·.move d dest)).run.run σ).2
  | recycle d => ((Db.recycle d).run.run σ).2
  | setLock d name code creator flags => ((Db.setLock d name code creator flags).run.run σ).2
  | setLockSource player d name source flags =>
    ((Db.setLockSource player d name source flags).run.run σ).2
  | freeLock d name => ((Db.freeLock d name).run.run σ).2
  | freeAllLocks d => ((Db.freeAllLocks d).run.run σ).2
  | copyLocks source d => ((Db.copyLocks source d).run.run σ).2
  | restoreSnapshot key raw => ((Db.restoreSnapshot key raw).run σ).2

/-- The locks that an operation is about, by object and name in lower case. Nothing is added
under a number that was ever taken, and a snapshot is not about the locks of objects that are
gone, or that took the number of another. -/
def About (s : Store) : Operation → Dbref → Bytes → Prop
  | add o _, d, _ => d = o.id ∧ s.slots.contains d = false
  | move _ _, _, _ => False
  | recycle x, d, _ => d = x
  | setLock x name _ _ _, d, key => d = x ∧ key = (lockName name).toLower
  | setLockSource _ x name _ _, d, key => d = x ∧ key = (lockName name).toLower
  | freeLock x name, d, key => d = x ∧ key = name.toLower
  | freeAllLocks x, d, _ => d = x
  | copyLocks source x, d, key => d = x ∧ ∃ l ∈ s.locks source, key = l.name.toLower
  | restoreSnapshot k raw, d, key => ∃ es, Db.readEntries k raw = .ok es ∧ ∃ e ∈ es,
      (s.get? e.object).any (·.created = e.created) = true ∧ d = e.object ∧
      key = (lockName e.name).toLower

/-- How many new chunks an operation may ask for. -/
def demand (s : Store) : Operation → Nat
  | setLock _ _ _ _ _ => 1
  | setLockSource _ _ _ _ _ => 1
  | copyLocks source _ => (s.locks source).length
  | restoreSnapshot k raw =>
    match Db.readEntries k raw with
    | .ok es => es.length
    | .error _ => 0
  | _ => 0

theorem perform_kept (op : Operation) {σ : Session} {k : Nat}
    (h : σ.store.Owned [] (k + op.demand σ.store)) :
    Store.Kept (op.About σ.store) σ.store [] k (op.perform σ).store := by
  have hstart := h.guarded (op.About σ.store)
  cases op with
  | add o unlocked =>
    refine Db.Ensures.change (p := (· = σ.store)) (r := fun _ => Store.Kept _ σ.store [] k)
      ?_ ?_ σ rfl
    · rintro s s' rfl hadd
      exact hstart.toKept.add hadd unlocked fun hfree _ => ⟨rfl, hfree⟩
    · rintro s e rfl -
      exact hstart.toKept
  | move d dest =>
    refine Db.Ensures.change (p := (· = σ.store)) (r := fun _ => Store.Kept _ σ.store [] k)
      ?_ ?_ σ rfl
    · rintro s s' rfl hmove
      exact hstart.toKept.move hmove
    · rintro s e rfl -
      exact hstart.toKept
  | recycle d => exact (Db.recycle_kept (fun _ => rfl) σ hstart).1
  | setLock d name code creator flags =>
    exact (Db.setLock_guarded ⟨rfl, rfl⟩ code creator flags σ hstart).toKept
  | setLockSource player d name source flags =>
    exact (Db.setLockSource_guarded ⟨rfl, rfl⟩ player source flags σ hstart).toKept
  | freeLock d name => exact (Db.freeLock_guarded ⟨rfl, rfl⟩ σ hstart).toKept
  | freeAllLocks d => exact (Db.freeAllLocks_guarded (fun _ => rfl) σ hstart).1.toKept
  | copyLocks source d =>
    exact (Db.copyLocks_guarded (fun l hl => ⟨rfl, l, hl, rfl⟩) hstart σ rfl).toKept
  | restoreSnapshot key raw =>
    refine (Db.restoreSnapshot_guarded ?_ hstart).toKept
    exact fun es hes e he hthere => ⟨es, hes, e, he, hthere, rfl, rfl⟩

def performAll (σ : Session) (ops : List Operation) : Session := ops.foldl perform σ

def demandAll (σ : Session) : List Operation → Nat
  | [] => 0
  | op :: ops => op.demand σ.store + demandAll (op.perform σ) ops

theorem performAll_append (σ : Session) (ops ops' : List Operation) :
    performAll σ (ops ++ ops') = performAll (performAll σ ops) ops' :=
  List.foldl_append

theorem demandAll_append (σ : Session) (ops ops' : List Operation) :
    demandAll σ (ops ++ ops') = demandAll σ ops + demandAll (performAll σ ops) ops' := by
  induction ops generalizing σ with
  | nil => exact (Nat.zero_add _).symm
  | cons op ops ih => rw [List.cons_append, demandAll, demandAll, ih, Nat.add_assoc, performAll,
      performAll, List.foldl_cons]

theorem performAll_owned {σ : Session} {k : Nat} (ops : List Operation)
    (h : σ.store.Owned [] (demandAll σ ops + k)) :
    (performAll σ ops).store.Owned [] k ∧
      ∀ d, σ.store.slots.get? d = some .retired →
        (performAll σ ops).store.slots.get? d = some .retired := by
  induction ops generalizing σ with
  | nil => exact ⟨h.mono (Nat.le_add_left _ _), fun _ hd => hd⟩
  | cons op ops ih =>
    rw [demandAll, Nat.add_assoc, Nat.add_comm] at h
    have hstep := op.perform_kept h
    obtain ⟨howned, hretired⟩ := ih hstep.owned
    exact ⟨howned, fun d hd => hretired d (hstep.retired d hd)⟩

end Operation

namespace Store

/-- The lock records and the chunks of a database belong to each other one to one. -/
structure OneToOne (s : Store) : Prop where
  keyed : ∀ d key l, s.record? d key = some l → key = l.name.toLower
  held : ∀ d key l, s.record? d key = some l →
    l.ref.isZero = false ∧ s.chunks.chunks.contains l.ref = true
  apart : ∀ d key l d' key' l', s.record? d key = some l → s.record? d' key' = some l' →
    l.ref = l'.ref → d = d' ∧ key = key'
  owned : ∀ r, s.chunks.chunks.contains r = true →
    ∃ d key l, s.record? d key = some l ∧ l.ref = r
  count : s.chunks.size = (s.objects.map (·.locks.size)).sum
  gone : ∀ d, s.isValid d = false → s.locks d = []

variable {s : Store} {k : Nat}

theorem objects_eq (s : Store) : s.objects = s.slots.toList.filterMap (·.2.object?) := by
  rw [objects, SortedMap.values, List.filterMap_map]
  refine congrFun (congrArg _ ?_) _
  funext entry
  rcases entry with ⟨_, o | _⟩
  · rfl
  · rfl

theorem get?_of_mem {d : Dbref} {slot : Slot} {o : Object} (hmem : (d, slot) ∈ s.slots.toList)
    (ho : slot.object? = some o) : s.get? d = some o := by
  rw [get?_eq_bind, SortedMap.mem_toList.1 hmem]
  exact ho

theorem mem_objects {o : Object} : o ∈ s.objects ↔ ∃ d, s.get? d = some o := by
  rw [objects_eq, List.mem_filterMap]
  constructor
  · rintro ⟨⟨d, slot⟩, hmem, ho⟩
    exact ⟨d, get?_of_mem hmem ho⟩
  · rintro ⟨d, ho⟩
    rw [get?_eq_bind] at ho
    obtain ⟨slot, hslot, ho⟩ := Option.bind_eq_some_iff.1 ho
    exact ⟨(d, slot), SortedMap.mem_toList.2 hslot, ho⟩

def refs (s : Store) : List ChunkRef := s.objects.flatMap fun o => o.locks.values.map (·.ref)

theorem mem_refs {r : ChunkRef} :
    r ∈ s.refs ↔ ∃ d key l, s.record? d key = some l ∧ l.ref = r := by
  simp only [refs, objects_eq, List.mem_flatMap, List.mem_filterMap, SortedMap.mem_values,
    List.mem_map]
  constructor
  · rintro ⟨o, ⟨⟨d, slot⟩, hmem, ho⟩, l, ⟨key, hl⟩, rfl⟩
    exact ⟨d, key, l, (record?_of_get? (get?_of_mem hmem ho) key).trans hl, rfl⟩
  · rintro ⟨d, key, l, hl, rfl⟩
    obtain ⟨o, ho, hl⟩ := get?_of_record? hl
    rw [get?_eq_bind] at ho
    obtain ⟨slot, hslot, ho⟩ := Option.bind_eq_some_iff.1 ho
    exact ⟨o, ⟨(d, slot), SortedMap.mem_toList.2 hslot, ho⟩, l, ⟨key, hl⟩, rfl⟩

theorem Owned.nodup_all {loose : List ChunkRef} (h : s.Owned loose k) : s.refs.Nodup := by
  rw [refs, objects_eq]
  refine List.nodup_flatMap.2 ⟨?_, List.pairwise_filterMap.2 (s.slots.sorted.imp_of_mem ?_)⟩
  · intro o ho
    obtain ⟨⟨d, slot⟩, hmem, ho⟩ := List.mem_filterMap.1 ho
    exact h.nodup_refs (get?_of_mem hmem ho)
  · rintro ⟨d, slot⟩ ⟨d', slot'⟩ hmem hmem' hlt o ho o' ho' r hr hr'
    obtain ⟨l, hl, rfl⟩ := List.mem_map.1 hr
    obtain ⟨l', hl', href⟩ := List.mem_map.1 hr'
    obtain ⟨key, hl⟩ := SortedMap.mem_values.1 hl
    obtain ⟨key', hl'⟩ := SortedMap.mem_values.1 hl'
    have hrec := (record?_of_get? (get?_of_mem hmem ho) key).trans hl
    have hrec' := (record?_of_get? (get?_of_mem hmem' ho') key').trans hl'
    obtain ⟨rfl, -⟩ := h.apart d key l d' key' l' hrec hrec' href.symm
    rw [(Std.ReflCmp.compare_self : compare d d = .eq)] at hlt
    cases hlt

theorem Owned.count (h : s.Owned [] k) :
    s.chunks.size = (s.objects.map (·.locks.size)).sum := by
  have hperm : s.chunks.chunks.keys.Perm s.refs := by
    refine (List.perm_ext_iff_of_nodup s.chunks.chunks.nodup_keys h.nodup_all).2 fun r => ?_
    rw [SortedMap.mem_keys, mem_refs]
    constructor
    · exact fun hr => (h.owned r hr).resolve_left List.not_mem_nil
    · rintro ⟨d, key, l, hl, rfl⟩
      exact h.held d key l hl
  calc s.chunks.size
      = s.chunks.chunks.keys.length := (List.length_map _).symm
    _ = s.refs.length := hperm.length_eq
    _ = (s.objects.map (·.locks.size)).sum := by
      simp only [refs, List.length_flatMap, List.length_map, SortedMap.values, SortedMap.size]

theorem Owned.oneToOne (h : s.Owned [] k) : s.OneToOne where
  keyed := h.keyed
  held d key l hl := ⟨h.isZero_eq_false (h.held d key l hl), h.held d key l hl⟩
  apart := h.apart
  owned r hr := (h.owned r hr).resolve_left List.not_mem_nil
  count := h.count
  gone d hd := by
    rcases hget : s.get? d with _ | o
    · rw [locks, hget]
      rfl
    · rw [isValid, hget, (h.numbered d o hget).2] at hd
      cases hd

theorem length_locks (s : Store) (d : Dbref) :
    (s.locks d).length = ((s.get? d).map (·.locks.size)).getD 0 := by
  rw [locks]
  rcases s.get? d with _ | o
  · rfl
  · simp only [Option.map_some, Option.getD_some, Object.lockRecords, List.length_mergeSort,
      SortedMap.values, List.length_map, SortedMap.size]

theorem empty_owned {medium : Chunk.Medium} (settings : Settings) (c : Compression) {k : Nat}
    (hk : k < 2 ^ 64 - 1) :
    (empty settings (.empty medium c)).Owned [] k := by
  have hnone (d : Dbref) (key : Bytes) :
      (empty settings (.empty medium c)).record? d key = none := rfl
  constructor
  · exact fun _ _ h => nomatch h
  · exact fun d key l hl => nomatch (hnone d key).symm.trans hl
  · exact fun d key l hl => nomatch (hnone d key).symm.trans hl
  · exact fun d key l _ _ _ hl => nomatch (hnone d key).symm.trans hl
  · exact fun _ h => nomatch h
  · exact List.nodup_nil
  · exact fun _ _ _ _ h => nomatch h
  · exact fun _ h => nomatch h
  · exact fun _ h => nomatch h
  · change 0 < 1 ∧ 1 + k < 2 ^ 64
    omega

end Store

namespace Operation

def start (settings : Settings) (c : Compression) : Session :=
  ⟨.empty settings (.empty .memory c), []⟩

/-- As long as references last, records and chunks belong to each other one to one after any
operations. No operation changes a lock that it is not about, and what was recycled has no locks
ever again. -/
theorem performAll_oneToOne (settings : Settings) (c : Compression) (ops : List Operation)
    (hroom : demandAll (start settings c) ops < 2 ^ 64 - 1) :
    (performAll (start settings c) ops).store.OneToOne ∧
      ∀ (before : List Operation) (op : Operation) (after : List Operation),
        ops = before ++ op :: after →
        (∀ d name, ¬op.About (performAll (start settings c) before).store d
          (lockName name).toLower →
          (op.perform (performAll (start settings c) before)).store.findLock d name =
            (performAll (start settings c) before).store.findLock d name) ∧
        ∀ d, op = .recycle d → (performAll (start settings c) before).store.isValid d = true →
          (performAll (start settings c) ops).store.isValid d = false ∧
            (performAll (start settings c) ops).store.locks d = [] := by
  have howned : (start settings c).store.Owned [] _ := Store.empty_owned settings c hroom
  have hfinal := (performAll_owned (k := 0) ops howned).1.oneToOne
  refine ⟨hfinal, ?_⟩
  rintro before op after rfl
  rw [demandAll_append, demandAll, Nat.add_comm (op.demand _)] at howned
  have hbefore := (performAll_owned before howned).1
  refine ⟨(op.perform_kept hbefore).others, ?_⟩
  rintro d rfl hvalid
  have hsome : ((performAll (start settings c) before).store.get? d).isSome :=
    (Bool.and_eq_true_iff.1 hvalid).2
  have hretired :=
    (Db.recycle_kept (fun _ => rfl) _ (hbefore.guarded fun d' _ => d' = d)).2 hsome
  have hgone :
      (performAll (start settings c) (before ++ .recycle d :: after)).store.isValid d =
        false := by
    have hend :=
      (performAll_owned (k := 0) after (perform_kept (.recycle d) hbefore).owned).2 d hretired
    rw [performAll_append, Store.isValid, Store.get?_eq_bind, performAll, List.foldl_cons,
      ← performAll, hend]
    exact Bool.and_false _
  exact ⟨hgone, hfinal.gone d hgone⟩

def settling : List Operation :=
  [.add (.new 0 0) rfl, .add (.new 1 1) rfl, .setLock 0 "Use" (some "a") 0 ⟨0⟩,
    .setLock 1 "" (some "b") 0 ⟨0⟩]

/-- One of the objects is recycled, and the locks of the other are copied onto itself. -/
def clearing : List Operation := [.recycle 0, .copyLocks 1 1]

theorem performAll_oneToOne_settled :
    demandAll (start .standard .none) (settling ++ clearing) < 2 ^ 64 - 1 ∧
      (performAll (start .standard .none) settling).store.isValid 0 = true ∧
      (performAll (start .standard .none) (settling ++ clearing)).store.OneToOne ∧
      (performAll (start .standard .none) (settling ++ clearing)).store.locks 0 = [] ∧
      (perform (performAll (start .standard .none) settling) (.recycle 0)).store.findLock
          1 "BASIC" =
        (performAll (start .standard .none) settling).store.findLock 1 "BASIC" := by
  have hroom : demandAll (start .standard .none) (settling ++ clearing) < 2 ^ 64 - 1 := by
    simp only [settling, clearing, List.cons_append, List.nil_append, demandAll, demand,
      Store.length_locks]
    decide
  have hvalid :
      (performAll (start .standard .none) settling).store.isValid 0 = true := by decide
  obtain ⟨hone, hsteps⟩ := performAll_oneToOne .standard .none _ hroom
  obtain ⟨hothers, hrecycled⟩ := hsteps settling (.recycle 0) [.copyLocks 1 1] rfl
  have hother : (1 : Dbref) ≠ 0 := by decide
  exact ⟨hroom, hvalid, hone, (hrecycled 0 rfl hvalid).2, hothers 1 "BASIC" hother⟩

end Operation
end Database
end Locksmith
