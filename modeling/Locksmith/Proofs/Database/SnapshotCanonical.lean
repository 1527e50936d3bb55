import Locksmith.Proofs.Database.Reached

namespace Locksmith

namespace Bytes

theorem le_iff_isLE {a b : Bytes} : a.le b = true ↔ (compare a b).isLE = true := by
  rw [le]
  cases compare a b <;> decide

theorem le_trans (a b c : Bytes) (hab : a.le b = true) (hbc : b.le c = true) :
    a.le c = true := by
  rw [le_iff_isLE] at *
  exact Std.TransCmp.isLE_trans hab hbc

theorem le_total (a b : Bytes) : (a.le b || b.le a) = true := by
  rw [Bool.or_eq_true, le_iff_isLE, le_iff_isLE]
  rcases h : compare a b with _ | _ | _
  · exact .inl rfl
  · exact .inl rfl
  · right
    rw [Std.OrientedCmp.lt_of_gt h]
    rfl

theorem compare_lt_of_le {a b : Bytes} (h : a.le b = true) (hne : a ≠ b) :
    compare a b = .lt := by
  rcases hc : compare a b with _ | _ | _
  · rfl
  · exact absurd (Std.LawfulEqOrd.eq_of_compare hc) hne
  · rw [le, hc] at h
    cases h

end Bytes

theorem mapM_congr {ε α β : Type} {l : List α} {f g : α → Except ε β} (h : ∀ a ∈ l, f a = g a) :
    l.mapM f = l.mapM g := by
  induction l with
  | nil => rfl
  | cons a rest ih =>
    rw [List.mapM_cons, List.mapM_cons, h a List.mem_cons_self,
      ih fun b hb => h b (List.mem_cons_of_mem _ hb)]

theorem mapM_isOk {ε α β : Type} {l : List α} {f : α → Except ε β}
    (h : ∀ a ∈ l, ∃ b, f a = .ok b) : ∃ bs, l.mapM f = .ok bs := by
  induction l with
  | nil => exact ⟨[], rfl⟩
  | cons a rest ih =>
    obtain ⟨b, hb⟩ := h a List.mem_cons_self
    obtain ⟨bs, hbs⟩ := ih fun x hx => h x (List.mem_cons_of_mem _ hx)
    rw [List.mapM_cons, hb, hbs]
    exact ⟨b :: bs, rfl⟩

namespace Database

/-- A lock as it looks from outside, whichever chunk its code is in. -/
structure LockView where
  object : Dbref
  created : Int64
  name : Bytes
  creator : Dbref
  flags : LockFlags
  code : LockCode

namespace LockView

/-- The order of numbers, and of names on one object. -/
def Before (v w : LockView) : Prop :=
  compare v.object w.object = .lt ∨ v.object = w.object ∧ compare v.name w.name = .lt

theorem Before.asymm {v w : LockView} (h : v.Before w) : ¬w.Before v := by
  have hirrefl {κ : Type} [Ord κ] [Std.ReflOrd κ] {a b : κ} (heq : a = b)
      (hlt : compare a b = .lt) : False := by
    rw [heq, (Std.ReflCmp.compare_self : compare b b = .eq)] at hlt
    cases hlt
  rintro (hlt | ⟨heq, hlt⟩)
  · rcases h with hlt' | ⟨heq', -⟩
    · exact Std.OrientedCmp.not_lt_of_lt hlt hlt'
    · exact hirrefl heq'.symm hlt
  · rcases h with hlt' | ⟨-, hlt'⟩
    · exact hirrefl heq.symm hlt'
    · exact Std.OrientedCmp.not_lt_of_lt hlt hlt'

def entry (c : Compression) (v : LockView) : Except Error (Option SnapshotEntry) :=
  match v.code with
  | none => .ok none
  | some code =>
    ((Packed.pack c (some code)).mapError (.packing v.name v.object)).map fun packed =>
      some ⟨v.object, v.created, v.name, v.creator, v.flags, packed⟩

theorem entry_supported {c : Compression} (hc : c.Supported) {v : LockView}
    (hv : (v.code.getD []).length ≤ maxChunkSize) : ∃ e, v.entry c = .ok e := by
  rw [entry]
  rcases hcode : v.code with _ | code
  · exact ⟨none, rfl⟩
  · have hpack := Packed.pack_supported hc (some code)
    rw [hcode] at hv
    rw [if_neg (Nat.not_lt.2 hv)] at hpack
    obtain ⟨p, hp⟩ := hpack
    dsimp only
    rw [hp]
    exact ⟨_, rfl⟩

end LockView

namespace Store

def lockView (s : Store) (o : Object) (l : LockRecord) : LockView :=
  ⟨o.id, o.created, l.name, l.creator, l.flags, (s.findLock o.id l.name).code.toOption.join⟩

def lockViews (s : Store) : List LockView :=
  s.objects.flatMap fun o => o.lockRecords.map (s.lockView o)

variable {s : Store} {o : Object}

theorem objects_sorted (h : s.Numbered) :
    s.objects.Pairwise fun o o' => compare o.id o'.id = .lt := by
  rw [objects_eq]
  apply List.pairwise_filterMap.2
  apply s.slots.sorted.imp_of_mem
  rintro ⟨d, slot⟩ ⟨d', slot'⟩ hmem hmem' hlt o ho o' ho'
  rw [(h d o (get?_of_mem hmem ho)).1, (h d' o' (get?_of_mem hmem' ho')).1]
  exact hlt

end Store

variable {σ τ : Session} {c : Compression}

namespace Reached

theorem lockRecords_sorted (h : Reached σ) {d : Dbref} {o : Object}
    (ho : σ.store.get? d = some o) :
    o.lockRecords.Pairwise fun l l' => compare l.name l'.name = .lt := by
  have hsorted : o.lockRecords.Pairwise fun l l' => Bytes.le l.name l'.name = true :=
    List.pairwise_mergeSort (fun a b c => Bytes.le_trans a.name b.name c.name)
      (fun a b => Bytes.le_total a.name b.name) _
  -- keys differ, and a key is the name in lower case
  have hnames : (o.locks.values.map (·.name)).Nodup := by
    rw [SortedMap.values, List.map_map]
    apply List.Nodup.map_on _ (List.Nodup.of_map _ o.locks.nodup_keys)
    rintro ⟨key, l⟩ hl ⟨key', l'⟩ hl' hname
    rw [SortedMap.mem_toList] at hl hl'
    have hkey := h.owned.keyed d key l ((Store.record?_of_get? ho key).trans hl)
    have hkey' := h.owned.keyed d key' l' ((Store.record?_of_get? ho key').trans hl')
    have hname : l.name = l'.name := hname
    rw [← hname, ← hkey] at hkey'
    subst hkey'
    rw [Option.some.inj (hl.symm.trans hl')]
  have hapart : o.lockRecords.Pairwise fun l l' => l.name ≠ l'.name :=
    List.pairwise_map.1 ((List.mergeSort_perm o.locks.values _).symm.map _ |>.nodup hnames)
  exact (hsorted.and hapart).imp fun hlt => Bytes.compare_lt_of_le hlt.1 hlt.2

theorem lockViews_sorted (h : Reached σ) : σ.store.lockViews.Pairwise LockView.Before := by
  apply List.pairwise_flatMap.2
  constructor
  · intro o ho
    obtain ⟨d, ho⟩ := Store.mem_objects.1 ho
    apply List.pairwise_map.2
    exact (h.lockRecords_sorted ho).imp fun hlt => .inr ⟨rfl, hlt⟩
  · apply (Store.objects_sorted h.owned.numbered).imp
    intro o o' hlt v hv w hw
    obtain ⟨l, -, rfl⟩ := List.mem_map.1 hv
    obtain ⟨l', -, rfl⟩ := List.mem_map.1 hw
    exact .inl hlt

/-- The views are just the locks that objects have. -/
theorem mem_lockViews (h : Reached σ) {v : LockView} : v ∈ σ.store.lockViews ↔
    (σ.store.get? v.object).map (·.created) = some v.created ∧
      σ.store.HasLock v.object v.name v.creator v.flags v.code := by
  simp only [Store.lockViews, List.mem_flatMap, List.mem_map, Store.mem_objects]
  constructor
  · rintro ⟨o, ⟨d, ho⟩, l, hl, rfl⟩
    obtain ⟨rfl, -⟩ := h.owned.numbered d o ho
    obtain ⟨key, hl⟩ := SortedMap.mem_values.1 (List.mem_mergeSort.1 hl)
    obtain ⟨code, hfound, -⟩ := h.findLock_name ((Store.record?_of_get? ho key).trans hl)
    refine ⟨by rw [Store.lockView, ho, Option.map_some], l, ?_, rfl, rfl, rfl⟩
    simp only [Store.lockView, hfound]
    rfl
  · rcases v with ⟨d, created, name, creator, flags, code⟩
    rintro ⟨hcreated, l, hfound, rfl, rfl, rfl⟩
    obtain ⟨o, ho, rfl⟩ := Option.map_eq_some_iff.1 hcreated
    obtain ⟨rfl, -⟩ := h.owned.numbered d o ho
    have hrecord := σ.store.record_findLock o.id l.name
    rw [hfound, Store.record?_of_get? ho] at hrecord
    refine ⟨o, ⟨_, ho⟩, l, ?_, ?_⟩
    · exact List.mem_mergeSort.2 (SortedMap.mem_values.2 ⟨_, hrecord.symm⟩)
    · simp only [Store.lockView, hfound]
      rfl

theorem view_of_hasLock (h : Reached σ) {d creator : Dbref} {name : Bytes} {flags : LockFlags}
    {code : LockCode} (hlock : σ.store.HasLock d name creator flags code) :
    ∃ created, (σ.store.get? d).map (·.created) = some created ∧
      ⟨d, created, name, creator, flags, code⟩ ∈ σ.store.lockViews := by
  obtain ⟨o, ho⟩ := hlock.get?
  have hcreated : (σ.store.get? d).map (·.created) = some o.created := by
    rw [ho, Option.map_some]
  exact ⟨o.created, hcreated, h.mem_lockViews.2 ⟨hcreated, hlock⟩⟩

/-- Databases that look the same have the same views, in the same order. -/
theorem lockViews_congr (hσ : Reached σ) (hτ : Reached τ)
    (hobjects : ∀ d, (σ.store.get? d).map (·.created) = (τ.store.get? d).map (·.created))
    (hlocks : ∀ d name creator flags code,
      σ.store.HasLock d name creator flags code ↔ τ.store.HasLock d name creator flags code) :
    σ.store.lockViews = τ.store.lockViews := by
  have hnodup {ρ : Session} (hρ : Reached ρ) : ρ.store.lockViews.Nodup := by
    apply hρ.lockViews_sorted.imp
    rintro v w hbefore rfl
    exact hbefore.asymm hbefore
  apply List.Perm.eq_of_pairwise _ hσ.lockViews_sorted hτ.lockViews_sorted
  · apply (List.perm_ext_iff_of_nodup (hnodup hσ) (hnodup hτ)).2
    intro v
    rw [hσ.mem_lockViews, hτ.mem_lockViews, hobjects, hlocks]
  · intro v w _ _ hvw hwv
    exact absurd hwv hvw.asymm

theorem snapshotEntry_eq (h : Reached σ) (c : Compression) {d : Dbref} {o : Object}
    {l : LockRecord} (ho : σ.store.get? d = some o) (hl : l ∈ o.lockRecords) :
    σ.store.snapshotEntry c o l = (σ.store.lockView o l).entry c := by
  obtain ⟨rfl, -⟩ := h.owned.numbered d o ho
  obtain ⟨key, hl⟩ := SortedMap.mem_values.1 (List.mem_mergeSort.1 hl)
  obtain ⟨code, hfound, -⟩ := h.findLock_name ((Store.record?_of_get? ho key).trans hl)
  have hview : (σ.store.lockView o l).code = code := by
    rw [Store.lockView, hfound]
    rfl
  rw [Store.snapshotEntry, hfound, LockView.entry, hview]
  rcases code with _ | code
  · rfl
  · dsimp only [bind, Except.bind, Store.lockView]
    rcases Packed.pack c (some code) with e | p
    · rfl
    · rfl

/-- What goes into a snapshot depends on the views only. -/
theorem snapshotEntries_eq (h : Reached σ) (c : Compression) :
    σ.store.snapshotEntries c =
      (σ.store.lockViews.mapM (LockView.entry c)).map (·.filterMap id) := by
  have hviews : σ.store.lockViews =
      (σ.store.objects.flatMap fun o => o.lockRecords.map (o, ·)).map fun e =>
        σ.store.lockView e.1 e.2 := by
    rw [List.map_flatMap]
    simp only [List.map_map]
    rfl
  rw [hviews, List.mapM_map, Store.snapshotEntries]
  have hentries : (σ.store.objects.flatMap fun o => o.lockRecords.map (o, ·)).mapM
      (fun e => σ.store.snapshotEntry c e.1 e.2) =
      (σ.store.objects.flatMap fun o => o.lockRecords.map (o, ·)).mapM
        (LockView.entry c ∘ fun e => σ.store.lockView e.1 e.2) := by
    apply mapM_congr
    rintro ⟨o, l⟩ hmem
    obtain ⟨o', ho', hl⟩ := List.mem_flatMap.1 hmem
    obtain ⟨l', hl', heq⟩ := List.mem_map.1 hl
    cases heq
    obtain ⟨d, ho⟩ := Store.mem_objects.1 ho'
    exact h.snapshotEntry_eq c ho hl'
  rw [← hentries]
  rcases (σ.store.objects.flatMap fun o => o.lockRecords.map (o, ·)).mapM
    fun e => σ.store.snapshotEntry c e.1 e.2 with e | found
  · rfl
  · rfl

theorem length_code_le (h : Reached σ) {v : LockView} (hv : v ∈ σ.store.lockViews) :
    (v.code.getD []).length ≤ maxChunkSize := by
  obtain ⟨-, l, hfound, hname, -⟩ := h.mem_lockViews.1 hv
  have hrecord := σ.store.record_findLock v.object v.name
  rw [hfound] at hrecord
  obtain ⟨code, hcode, hlength⟩ := h.findLock_name hrecord.symm
  rw [hname, hfound] at hcode
  cases hcode
  exact hlength

/-- Snapshots are canonical: what they are depends only on which objects there are and which
locks these have. -/
theorem writeSnapshot_canonical (hσ : Reached σ) (hτ : Reached τ)
    (hobjects : ∀ d, (σ.store.get? d).map (·.created) = (τ.store.get? d).map (·.created))
    (hlocks : ∀ d name creator flags code,
      σ.store.HasLock d name creator flags code ↔ τ.store.HasLock d name creator flags code)
    (nonce nonce' : Bytes) (c : Compression) :
    σ.store.writeSnapshot nonce c none = τ.store.writeSnapshot nonce' c none ∧
      (c.Supported → ∃ n raw, σ.store.writeSnapshot nonce c none = .ok (n, raw)) := by
  constructor
  · rw [Store.writeSnapshot, Store.writeSnapshot, hσ.snapshotEntries_eq, hτ.snapshotEntries_eq,
      lockViews_congr hσ hτ hobjects hlocks]
    rfl
  · intro hc
    obtain ⟨found, hfound⟩ := mapM_isOk fun v hv =>
      LockView.entry_supported hc (hσ.length_code_le hv)
    rw [Store.writeSnapshot, hσ.snapshotEntries_eq, hfound]
    exact ⟨_, _, rfl⟩

def lockedAs (name : Bytes) : Session :=
  Operation.performAll (Operation.start .standard .none)
    [.addNew 0 0, .setLock 0 name (some "a") 0 ⟨0⟩]

/-- The lock is freed and set again, so that its code comes into another chunk. -/
def relocked : Session :=
  Operation.performAll (lockedAs "Use") [.freeLock 0 "USE", .setLock 0 "Use" (some "a") 0 ⟨0⟩]

theorem lockedAs_reached (name : Bytes) : Reached (lockedAs name) := by
  apply performAll (.new .standard .memory .none)
  change 2 < 2 ^ 64
  decide

theorem relocked_reached : Reached relocked := by
  apply (lockedAs_reached "Use").performAll
  decide

theorem hasLock_lockedAs (name : Bytes) :
    (lockedAs name).store.HasLock 0 (lockName name) 0 ⟨0⟩ (some "a") := by
  have hadded :
      Reached (Operation.performAll (Operation.start .standard .none) [.addNew 0 0]) := by
    apply performAll (.new .standard .memory .none)
    decide
  exact hadded.hasLock_setLock (by decide) (by decide) (by decide) name 0 ⟨0⟩

theorem writeSnapshot_canonical_relocked :
    ((lockedAs "Use").store.findLock 0 "Use").record ≠
      (relocked.store.findLock 0 "Use").record ∧
      ∀ nonce nonce' c,
        (lockedAs "Use").store.writeSnapshot nonce c none =
          relocked.store.writeSnapshot nonce' c none := by
  have hfreed : Reached (Operation.performAll (lockedAs "Use") [.freeLock 0 "USE"]) := by
    apply (lockedAs_reached "Use").performAll
    decide
  have hlock : relocked.store.HasLock 0 "Use" 0 ⟨0⟩ (some "a") :=
    hfreed.hasLock_setLock (by decide) (by decide) (by decide) "Use" 0 ⟨0⟩
  -- both operations are about this lock only
  let guarded : Nat → Store → Prop :=
    Store.Guarded (fun d key => d = 0 ∧ key = "use") (lockedAs "Use").store []
  have hguarded : guarded 0 relocked.store := by
    have hstart : guarded 1 (lockedAs "Use").store :=
      ((lockedAs_reached "Use").owned.with_room (by decide)).guarded _
    have hfree : Db.Ensures (guarded 1) (Db.freeLock 0 "USE") fun _ => guarded 1 :=
      Db.freeLock_guarded ⟨rfl, rfl⟩
    have hset :
        Db.Ensures (guarded 1) (Db.setLock 0 "Use" (some "a") 0 ⟨0⟩) fun _ => guarded 0 :=
      Db.setLock_guarded ⟨rfl, rfl⟩ _ _ _
    exact hset _ (hfree (lockedAs "Use") hstart)
  refine ⟨by decide, fun nonce nonce' c => ?_⟩
  apply (writeSnapshot_canonical (lockedAs_reached "Use") relocked_reached ?_ ?_ nonce
    nonce' c).1
  · exact fun d => (hguarded.created d).symm
  · intro d name creator flags code
    by_cases hat : d = 0 ∧ (lockName name).toLower = "use"
    · obtain ⟨rfl, hname⟩ := hat
      constructor
      · intro h
        obtain ⟨rfl, rfl, rfl, rfl⟩ := h.unique (hasLock_lockedAs "Use") hname
        exact hlock
      · intro h
        obtain ⟨rfl, rfl, rfl, rfl⟩ := h.unique hlock hname
        exact hasLock_lockedAs "Use"
    · rw [Store.HasLock, Store.HasLock, hguarded.others d name hat]

end Reached
end Database
end Locksmith
