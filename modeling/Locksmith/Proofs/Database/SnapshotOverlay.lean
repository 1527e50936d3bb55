import Locksmith.Proofs.Database.SnapshotReading

namespace Locksmith
namespace Database
namespace SnapshotEntry

/-- The object of an entry is there, and no other that took its number since. -/
def isThere (s : Store) (e : SnapshotEntry) : Bool :=
  (s.get? e.object).any (·.created = e.created)

/-- What an entry needs for its lock to be put in place and found under its name. -/
structure Sound (e : SnapshotEntry) : Prop where
  numbered : e.object.isSentinel = false
  named : lockName e.name = e.name
  coded : e.view.code.isSome = true

/-- Entries of two locks, which do not replace each other. -/
def Apart (e e' : SnapshotEntry) : Prop :=
  ¬(e.object = e'.object ∧ (lockName e.name).toLower = (lockName e'.name).toLower)

theorem Sound.unpack {e : SnapshotEntry} (h : e.Sound) :
    ∃ code, e.view.code = some code ∧ e.code.unpack = .ok (some code) ∧
      code.length ≤ maxChunkSize := by
  obtain ⟨code, hcode⟩ := Option.isSome_iff_exists.1 h.coded
  have hunpack : e.code.unpack = .ok (some code) := by
    change e.code.unpack.toOption.join = some code at hcode
    rcases hout : e.code.unpack with err | out
    · rw [hout] at hcode
      cases hcode
    · rw [hout] at hcode
      exact congrArg Except.ok hcode
  exact ⟨code, hcode, hunpack, (Packed.keeps_of_unpack hunpack).length_le⟩

theorem isThere_iff {s : Store} {e : SnapshotEntry} :
    e.isThere s = true ↔ (s.get? e.object).map (·.created) = some e.created := by
  rw [isThere, Option.any_eq_true, Option.map_eq_some_iff]
  simp only [decide_eq_true_eq]

theorem isThere_congr {s s' : Store}
    (h : ∀ d, (s'.get? d).map (·.created) = (s.get? d).map (·.created)) :
    isThere s' = isThere s := by
  funext e
  rw [Bool.eq_iff_iff, isThere_iff, isThere_iff, h]

end SnapshotEntry

namespace Db

open SnapshotEntry

variable {e : SnapshotEntry} {es : List SnapshotEntry} {s : Store} {k : Nat}

/-- An entry whose object is there is put in place. -/
theorem restoreEntry_there (he : e.Sound) (hthere : e.isThere s = true) (howned : s.Owned [] k)
    (hc : s.chunks.compression.Supported) :
    Ensures (· = s) (restoreEntry e) fun out s' =>
      out = .ok true ∧ e.Placed s' ∧ s'.chunks.compression = s.chunks.compression := by
  obtain ⟨code, hcode, hunpack, hlength⟩ := he.unpack
  obtain ⟨o, ho, -⟩ := (Option.any_eq_true _ _).1 hthere
  apply Ensures.store_bind
  rintro s rfl
  refine .ite (fun _ => ?_) fun hmissing => absurd hthere hmissing
  rw [hunpack]
  refine .bind (setLock_withLock he.numbered ho hc hlength e.creator e.flags) ?_ ?_
  · intro _
    apply Ensures.pure
    rintro s' ⟨-, p, hp, rfl⟩
    have hplaced : (s.withLock e.object o (lockName e.name) e.creator e.flags p).HasLock
        e.object (lockName e.name)
        e.creator e.flags (some code) := Store.hasLock_withLock howned ho hp
    refine ⟨rfl, ?_, Store.compression_withLock s e.object o (lockName e.name) e.creator
      e.flags p⟩
    rw [Placed, hcode]
    rw [he.named] at hplaced ⊢
    exact hplaced
  · rintro err s' ⟨hout, -⟩
    cases hout

/-- An entry whose object is not there changes nothing. -/
theorem restoreEntry_missing (hmissing : e.isThere s = false) :
    Ensures (· = s) (restoreEntry e) fun out s' => out = .ok false ∧ s' = s := by
  apply Ensures.store_bind
  rintro s rfl
  refine .ite (fun hthere => ?_) fun _ => .look_bind fun _ => .pure fun _ heq => ⟨rfl, heq⟩
  rw [isThere, hthere] at hmissing
  cases hmissing

/-- One entry is put in place or passed over, and it does not fail. -/
theorem restoreEntry_run {σ : Session} (he : e.Sound) (howned : σ.store.Owned [] (k + 1))
    (hc : σ.store.chunks.compression.Supported) :
    ∃ σ', (restoreEntry e).run.run σ = (.ok (e.isThere σ.store), σ') ∧ σ'.store.Owned [] k ∧
      σ'.store.chunks.compression = σ.store.chunks.compression ∧
      isThere σ'.store = isThere σ.store ∧
      (e.isThere σ.store = true → e.Placed σ'.store) := by
  have hguarded :
      Store.Guarded (fun _ _ => True) σ.store [] k ((restoreEntry e).run.run σ).2.store :=
    restoreEntry_guarded (fun _ => trivial) σ (howned.guarded fun _ _ => True)
  rcases hout : (restoreEntry e).run.run σ with ⟨out, σ'⟩
  rw [hout] at hguarded
  refine ⟨σ', ?_⟩
  cases hthere : e.isThere σ.store with
  | true =>
    obtain ⟨hok, hplaced, hcompression⟩ := restoreEntry_there he hthere howned hc σ rfl
    rw [hout] at hok hplaced hcompression
    exact ⟨congrArg (·, σ') hok, hguarded.owned, hcompression, isThere_congr hguarded.created,
      fun _ => hplaced⟩
  | false =>
    obtain ⟨hok, hsame⟩ := restoreEntry_missing hthere σ rfl
    rw [hout] at hok hsame
    have hsame : σ'.store = σ.store := hsame
    refine ⟨congrArg (·, σ') hok, hguarded.owned, by rw [hsame], by rw [hsame], fun h => ?_⟩
    cases h

/-- All entries whose objects are there are put in place and counted. -/
theorem restoreEntries_overlay {σ : Session} (hsound : ∀ e ∈ es, e.Sound)
    (hapart : es.Pairwise Apart) (howned : σ.store.Owned [] es.length)
    (hc : σ.store.chunks.compression.Supported) (count : Nat) :
    ((restoreEntries count es).run σ).1 = (count + es.countP (isThere σ.store), none) ∧
      ∀ e ∈ es, e.isThere σ.store = true →
        e.Placed ((restoreEntries count es).run σ).2.store := by
  induction es generalizing count σ with
  | nil => exact ⟨rfl, List.forall_mem_nil _⟩
  | cons e rest ih =>
    obtain ⟨he, hrest⟩ := List.forall_mem_cons.1 hsound
    obtain ⟨hfirst, hapart⟩ := List.pairwise_cons.1 hapart
    obtain ⟨σ', hrun, howned', hcompression, hthere, hplaced⟩ := restoreEntry_run he howned hc
    have hstep : (restoreEntries count (e :: rest)).run σ =
        (restoreEntries (count + (e.isThere σ.store).toNat) rest).run σ' := by
      rw [restoreEntries, StateT.run_bind, hrun]
      cases e.isThere σ.store with
      | true => rfl
      | false => rfl
    obtain ⟨hcount, hall⟩ :=
      ih hrest hapart howned' (hcompression ▸ hc) (count + (e.isThere σ.store).toNat)
    rw [hthere] at hcount hall
    rw [hstep, hcount, List.countP_cons]
    refine ⟨?_, List.forall_mem_cons.2 ⟨fun hhere => ?_, hall⟩⟩
    · cases e.isThere σ.store with
      | true => exact congrArg (·, none) (Nat.add_right_comm _ _ _)
      | false => rfl
    · -- no later entry replaces this one
      have hlater : Store.Guarded
          (fun d key => ∃ e' ∈ rest, d = e'.object ∧ key = (lockName e'.name).toLower) σ'.store
          [] 0 ((restoreEntries (count + (e.isThere σ.store).toNat) rest).run σ').2.store := by
        apply restoreEntries_guarded
        · exact fun e' he' _ => ⟨e', he', rfl, rfl⟩
        · rw [Nat.zero_add]
          exact howned'.guarded _
      rw [Placed, Store.HasLock, hlater.others e.object e.name]
      · exact hplaced hhere
      · rintro ⟨e', he', hsame⟩
        exact hfirst e' he' hsame

/-- Entries that can be read are restored as an overlay, and the rest is as it was. -/
theorem restoreSnapshot_of_readEntries {key : Option Bytes} {raw : Bytes} {σ : Session}
    (hread : readEntries key raw = .ok es) (hsound : ∀ e ∈ es, e.Sound)
    (hapart : es.Pairwise Apart)
    (howned : σ.store.Owned [] es.length) (hc : σ.store.chunks.compression.Supported) :
    ∃ σ', (restoreSnapshot key raw).run σ = ((es.countP (isThere σ.store), none), σ') ∧
      (∀ e ∈ es, e.isThere σ.store = true → e.Placed σ'.store) ∧
      ∀ d name, (∀ e ∈ es, e.isThere σ.store = true → ¬(d = e.object ∧
        (lockName name).toLower = (lockName e.name).toLower)) →
        σ'.store.findLock d name = σ.store.findLock d name := by
  obtain ⟨hcount, hplaced⟩ := restoreEntries_overlay hsound hapart howned hc 0
  rw [Nat.zero_add] at hcount
  have hguarded : Store.Guarded (fun d key => ∃ e ∈ es, e.isThere σ.store = true ∧
      d = e.object ∧ key = (lockName e.name).toLower) σ.store [] 0
      ((restoreEntries 0 es).run σ).2.store := by
    apply restoreEntries_guarded
    · exact fun e he hthere => ⟨e, he, hthere, rfl, rfl⟩
    · rw [Nat.zero_add]
      exact howned.guarded _
  rw [restoreSnapshot, hread, StateT.run_bind]
  rcases hout : (restoreEntries 0 es).run σ with ⟨out, σ'⟩
  rw [hout] at hcount hplaced hguarded
  obtain rfl := hcount
  refine ⟨_, rfl, hplaced, ?_⟩
  intro d name hother
  apply hguarded.others
  rintro ⟨e, he, hthere, hsame⟩
  exact hother e he hthere hsame

end Db

/-- A snapshot of `s` brings this lock to `t`: it is not open, and its object is there too. -/
def Store.Brings (s t : Store) (d : Dbref) (name : Bytes) (creator : Dbref) (flags : LockFlags)
    (code : Bytes) : Prop :=
  s.HasLock d name creator flags (some code) ∧ t.isValid d = true ∧
    (t.get? d).map (·.created) = (s.get? d).map (·.created)

namespace Reached

variable {σ τ : Session} {nonce raw : Bytes} {c : Compression} {key : Option Bytes} {n : Nat}
  {es : List SnapshotEntry} {e : SnapshotEntry}

section Entries

variable (hσ : Reached σ)
  (hes : es.map SnapshotEntry.view = σ.store.lockViews.filter (·.code.isSome))
include hσ hes

theorem sound_of_mem (he : e ∈ es) : e.Sound := by
  obtain ⟨hplaced, hcode, hcreated⟩ := hσ.placed_of_mem hes he
  obtain ⟨o, ho, -⟩ := Option.map_eq_some_iff.1 hcreated
  obtain ⟨l, hfound, hname, -⟩ := hplaced
  have hrecord := σ.store.record_findLock e.object e.name
  rw [hfound] at hrecord
  refine ⟨(hσ.owned.numbered _ _ ho).2, ?_, hcode⟩
  rw [← hname]
  exact hσ.lockName_name hrecord.symm

theorem entries_apart : es.Pairwise SnapshotEntry.Apart := by
  have hsorted : (es.map SnapshotEntry.view).Pairwise LockView.Before := by
    rw [hes]
    exact hσ.lockViews_sorted.filter _
  apply (List.pairwise_map.1 hsorted).imp_of_mem
  rintro e e' he he' hbefore ⟨hobject, hname⟩
  have hplaced := (hσ.placed_of_mem hes he).1
  rw [SnapshotEntry.Placed, hobject] at hplaced
  obtain ⟨hname, -⟩ := hplaced.unique (hσ.placed_of_mem hes he').1 hname
  -- the views of one lock would come before each other
  have hafter : e'.view.Before e.view := by
    simpa only [LockView.Before, SnapshotEntry.view, hobject, hname] using hbefore
  exact hbefore.asymm hafter

/-- The entries whose objects are there are the locks that the snapshot brings. -/
theorem brings_iff (hτ : Reached τ) {d creator : Dbref} {name code : Bytes}
    {flags : LockFlags} :
    σ.store.Brings τ.store d name creator flags code ↔ ∃ e ∈ es, e.isThere τ.store = true ∧
      e.object = d ∧ e.name = name ∧ e.creator = creator ∧ e.flags = flags ∧
      e.view.code = some code := by
  constructor
  · rintro ⟨hlock, -, hcreated⟩
    obtain ⟨e, he, hsame, hview⟩ := hσ.entry_of_hasLock hes hlock
    rw [SnapshotEntry.view, LockView.mk.injEq] at hview
    obtain ⟨rfl, -, rfl, rfl, rfl, hcode⟩ := hview
    exact ⟨e, he, SnapshotEntry.isThere_iff.2 (hcreated.trans hsame), rfl, rfl, rfl, rfl, hcode⟩
  · rintro ⟨e, he, hthere, rfl, rfl, rfl, rfl, hcode⟩
    obtain ⟨hplaced, -, hcreated⟩ := hσ.placed_of_mem hes he
    rw [SnapshotEntry.isThere_iff] at hthere
    obtain ⟨o, ho, -⟩ := Option.map_eq_some_iff.1 hthere
    rw [SnapshotEntry.Placed, hcode] at hplaced
    refine ⟨hplaced, ?_, hthere.trans hcreated.symm⟩
    rw [Store.isValid, (hτ.owned.numbered _ _ ho).2, ho]
    rfl

/-- So their number is how many locks it brings. -/
theorem countP_isThere (hτ : Reached τ) : es.countP (SnapshotEntry.isThere τ.store) =
    {p : Dbref × Bytes | ∃ creator flags code,
      σ.store.Brings τ.store p.1 p.2 creator flags code}.ncard := by
  have hnodup :
      ((es.filter (SnapshotEntry.isThere τ.store)).map fun e => (e.object, e.name)).Nodup := by
    apply List.pairwise_map.2
    apply ((hσ.entries_apart hes).filter _).imp
    intro e e' hapart hsame
    obtain ⟨hobject, hname⟩ := Prod.mk.inj hsame
    exact hapart ⟨hobject, by rw [hname]⟩
  have hset :
      {p : Dbref × Bytes | ∃ creator flags code,
        σ.store.Brings τ.store p.1 p.2 creator flags code} =
      ((es.filter (SnapshotEntry.isThere τ.store)).map fun e =>
        (e.object, e.name)).toFinset := by
    ext ⟨d, name⟩
    rw [Set.mem_ofPred_eq, Finset.mem_coe, List.mem_toFinset, List.mem_map]
    constructor
    · rintro ⟨creator, flags, code, hbrings⟩
      obtain ⟨e, he, hthere, hobject, hname, -⟩ := (hσ.brings_iff hes hτ).1 hbrings
      exact ⟨e, List.mem_filter.2 ⟨he, hthere⟩, Prod.ext hobject hname⟩
    · rintro ⟨e, he, hsame⟩
      obtain ⟨he, hthere⟩ := List.mem_filter.1 he
      obtain ⟨code, hcode⟩ := Option.isSome_iff_exists.1 (hσ.placed_of_mem hes he).2.1
      obtain ⟨hobject, hname⟩ := Prod.mk.inj hsame
      exact ⟨e.creator, e.flags, code,
        (hσ.brings_iff hes hτ).2 ⟨e, he, hthere, hobject, hname, rfl, rfl, hcode⟩⟩
  rw [hset, Set.ncard_coe_finset, List.toFinset_card_of_nodup hnodup, List.length_map,
    List.countP_eq_length_filter]

end Entries

/-- A snapshot that was written is restored into any database with the same key, if it has not
too many entries for the decoder: just the locks that it brings are put in place, as they were,
and counted. -/
theorem restoreSnapshot_overlay (hσ : Reached σ) (hτ : Reached τ)
    (hc : τ.store.chunks.compression.Supported) (hnames : ∀ d name creator flags code,
      σ.store.HasLock d name creator flags (some code) → Utf8.isValid name = true)
    (hnonce : nonce.length = Aead.nonceSize)
    (hwrite : σ.store.writeSnapshot nonce c key = .ok (n, raw))
    (hraw : raw.length < 2 ^ 64) (hroom : τ.store.chunks.next.num.toNat + n < 2 ^ 64) :
    (n ≤ Cbor.maxCount → ∃ τ',
      (Db.restoreSnapshot key raw).run τ = (({p : Dbref × Bytes | ∃ creator flags code,
        σ.store.Brings τ.store p.1 p.2 creator flags code}.ncard, none), τ') ∧
      (∀ d name creator flags code, σ.store.Brings τ.store d name creator flags code →
        τ'.store.HasLock d name creator flags (some code)) ∧
      (∀ d name,
        (∀ name' creator flags code, σ.store.Brings τ.store d name' creator flags code →
          (lockName name).toLower ≠ (lockName name').toLower) →
        τ'.store.findLock d name = τ.store.findLock d name)) ∧
    (Cbor.maxCount < n →
      (Db.restoreSnapshot key raw).run τ = ((0, some (.reading (.decoding .tooMany))), τ)) := by
  obtain ⟨es, hwritten, rfl, hes⟩ := hσ.entries_of_writeSnapshot hwrite
  have hread := Db.readEntries_write hnonce hraw hwritten
  constructor
  · intro hfew
    rw [if_neg (Nat.not_lt.2 hfew), if_pos] at hread
    · obtain ⟨τ', hrun, hplaced, hothers⟩ := Db.restoreSnapshot_of_readEntries hread
        (fun e he => hσ.sound_of_mem hes he) (hσ.entries_apart hes)
        (hτ.owned.with_room hroom) hc
      rw [hσ.countP_isThere hes hτ] at hrun
      refine ⟨τ', hrun, ?_, ?_⟩
      · intro d name creator flags code hbrings
        obtain ⟨e, he, hthere, rfl, rfl, rfl, rfl, hcode⟩ := (hσ.brings_iff hes hτ).1 hbrings
        rw [← hcode]
        exact hplaced e he hthere
      · intro d name hother
        apply hothers
        rintro e he hthere ⟨rfl, hname⟩
        obtain ⟨code, hcode⟩ := Option.isSome_iff_exists.1 (hσ.placed_of_mem hes he).2.1
        have hbrings := (hσ.brings_iff hes hτ).2 ⟨e, he, hthere, rfl, rfl, rfl, rfl, hcode⟩
        exact hother e.name e.creator e.flags code hbrings hname
    · intro e he
      obtain ⟨d, creator, flags, code, hlock⟩ := (hσ.mem_entry_names hes).1 ⟨e, he, rfl⟩
      exact hnames d e.name creator flags code hlock
  · intro hmany
    rw [if_pos hmany] at hread
    rw [Db.restoreSnapshot, hread]
    rfl

theorem hasLock_lockedAs_only {d creator : Dbref} {name name' : Bytes} {flags : LockFlags}
    {code : LockCode} (h : (lockedAs name).store.HasLock d name' creator flags code) :
    d = 0 ∧ name' = lockName name := by
  obtain ⟨created, -, hview⟩ := (lockedAs_reached name).view_of_hasLock h
  rw [lockViews_lockedAs, List.mem_singleton] at hview
  cases hview
  exact ⟨rfl, rfl⟩

/-- A database with two locks, of which one has the name of another lock in other case. -/
def overlaid : Session := Operation.performAll (Operation.start .standard .none)
  [.addNew 0 0, .setLock 0 "USE" (some "b") 0 ⟨1⟩, .setLock 0 "Enter" (some "c") 0 ⟨0⟩]

theorem overlaid_reached : Reached overlaid := by
  apply performAll (.new .standard .memory .none)
  decide

theorem brings_overlaid : (lockedAs "Use").store.Brings overlaid.store 0 "Use" 0 ⟨0⟩ "a" :=
  ⟨hasLock_lockedAs "Use", by decide, by decide⟩

theorem restoreSnapshot_overlay_other_case :
    ∃ raw, (lockedAs "Use").store.writeSnapshot (.replicate 24 0) .none none = .ok (1, raw) ∧
      raw.length < 2 ^ 64 ∧
      ∃ τ', (Db.restoreSnapshot none raw).run overlaid = ((1, none), τ') ∧
        τ'.store.HasLock 0 "Use" 0 ⟨0⟩ (some "a") ∧
        τ'.store.findLock 0 "Enter" = overlaid.store.findLock 0 "Enter" := by
  obtain ⟨raw, hwrite, hraw⟩ := writeSnapshot_lockedAs "Use" (by decide) (.replicate 24 0)
  have hnames : ∀ d name creator flags code,
      (lockedAs "Use").store.HasLock d name creator flags (some code) →
      Utf8.isValid name = true := by
    intro d name creator flags code h
    rw [(hasLock_lockedAs_only h).2]
    decide
  have hone : {p : Dbref × Bytes | ∃ creator flags code,
      (lockedAs "Use").store.Brings overlaid.store p.1 p.2 creator flags code} =
      {((0 : Dbref), ("Use" : Bytes))} := by
    apply Set.eq_singleton_iff_unique_mem.2
    constructor
    · exact ⟨_, _, _, brings_overlaid⟩
    · rintro ⟨d, name⟩ ⟨creator, flags, code, h⟩
      exact Prod.ext (hasLock_lockedAs_only h.1).1 (hasLock_lockedAs_only h.1).2
  obtain ⟨hfew, -⟩ := restoreSnapshot_overlay (lockedAs_reached "Use") overlaid_reached
    (by decide) hnames List.length_replicate hwrite hraw (by decide)
  obtain ⟨τ', hrun, hplaced, hothers⟩ := hfew (by decide)
  rw [hone, Set.ncard_singleton] at hrun
  refine ⟨raw, hwrite, hraw, τ', hrun, ?_, ?_⟩
  · exact hplaced 0 "Use" 0 ⟨0⟩ "a" brings_overlaid
  · apply hothers
    intro name creator flags code h
    rw [(hasLock_lockedAs_only h.1).2]
    decide

end Reached
end Database
end Locksmith
