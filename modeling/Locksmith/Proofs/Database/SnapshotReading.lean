import Locksmith.Proofs.Chunk.Snapshot
import Locksmith.Proofs.Database.SnapshotCanonical

namespace Locksmith
namespace Database
namespace SnapshotEntry

variable {e : SnapshotEntry} {es : List SnapshotEntry}

theorem toItem_sorted (e : SnapshotEntry) : Cbor.KeysSorted
    [(.nat 1, .ofInt64 e.object.num), (.nat 2, .ofInt64 e.created), (.nat 3, .text e.name),
      (.nat 4, .ofInt64 e.creator.num), (.nat 5, .nat e.flags.bits.toUInt64),
      (.nat 6, e.code.toItem)] := by
  simp only [Cbor.KeysSorted, List.map_cons, List.map_nil]
  decide

def fields (e : SnapshotEntry) : Cbor.Record :=
  [(1, .ofInt64 e.object.num), (2, .ofInt64 e.created), (3, .text e.name),
    (4, .ofInt64 e.creator.num), (5, .nat e.flags.bits.toUInt64), (6, e.code.toItem)]

/-- An entry is read back, unless its name is not UTF-8. -/
theorem ofItem_toItem (e : SnapshotEntry) :
    ofItem e.toItem = if Utf8.isValid e.name then .ok e else .error .notUtf8 := by
  have hrecord : e.toItem.asRecord = .ok e.fields := rfl
  have hobject : (e.fields.field 1).asInt64 = .ok e.object.num := Cbor.Item.asInt64_ofInt64 _
  have hcreated : (e.fields.field 2).asInt64 = .ok e.created := Cbor.Item.asInt64_ofInt64 _
  have hname :
      (e.fields.field 3).asText =
        if Utf8.isValid e.name then .ok e.name else .error .notUtf8 := rfl
  have hcreator : (e.fields.field 4).asInt64 = .ok e.creator.num := Cbor.Item.asInt64_ofInt64 _
  have hflags : (e.fields.field 5).asByte = .ok e.flags.bits := Cbor.Item.asByte_nat _
  have hcode : Packed.ofItem (e.fields.field 6) = .ok e.code := Packed.ofItem_toItem _
  by_cases hvalid : Utf8.isValid e.name = true
  · rw [if_pos hvalid] at hname ⊢
    simp only [ofItem, hrecord, hobject, hcreated, hname, hcreator, hflags, hcode, bind,
      Except.bind, pure, Except.pure]
  · rw [if_neg hvalid] at hname ⊢
    simp only [ofItem, hrecord, hobject, hcreated, hname, bind, Except.bind]

theorem toItem_reads {depth : Nat} (h : e.toItem.encode.length < 2 ^ 64) :
    Cbor.Reads (depth + 2) e.toItem := by
  have hname : e.name.length < 2 ^ 64 := by
    have htext :=
      Cbor.length_le_encode_map (k := .nat 3) (v := .text e.name) e.toItem_sorted (by simp)
    have hlength : e.name.length ≤ (Cbor.Item.text e.name).encode.length := by
      rw [Cbor.Item.encode, List.length_append]
      exact Nat.le_add_left _ _
    exact (hlength.trans htext).trans_lt h
  have hdata : (e.code.data.getD []).length < 2 ^ 64 := by
    have hcode :=
      Cbor.length_le_encode_map (k := .nat 6) (v := e.code.toItem) e.toItem_sorted (by simp)
    exact (e.code.length_data_le.trans hcode).trans_lt h
  apply Cbor.Reads.map
  · simp only [List.forall_mem_cons]
    exact ⟨⟨.nat _, .ofInt64 _⟩, ⟨.nat _, .ofInt64 _⟩, ⟨.nat _, .text hname⟩,
      ⟨.nat _, .ofInt64 _⟩, ⟨.nat _, .nat _⟩, ⟨.nat _, Packed.toItem_reads hdata⟩,
      List.forall_mem_nil _⟩
  · exact e.toItem_sorted
  · change 6 ≤ Cbor.maxCount
    decide

theorem length_pos (e : SnapshotEntry) : 0 < e.toItem.encode.length := by
  rw [toItem, Cbor.encode_map e.toItem_sorted, List.length_append]
  exact Nat.add_pos_left (Cbor.length_head_pos _ _) _

theorem length_toItem_le (e : SnapshotEntry) :
    e.toItem.encode.length ≤ 221 + e.name.length + (e.code.data.getD []).length := by
  have hmap := Cbor.length_map_le e.toItem_sorted
  simp only [List.map_cons, List.map_nil, List.sum_cons, List.sum_nil] at hmap
  rw [toItem]
  linarith [Cbor.length_nat_le 1, Cbor.length_nat_le 2, Cbor.length_nat_le 3,
    Cbor.length_nat_le 4, Cbor.length_nat_le 5, Cbor.length_nat_le 6,
    Cbor.length_ofInt64_le e.object.num, Cbor.length_ofInt64_le e.created,
    Cbor.length_text_le e.name, Cbor.length_ofInt64_le e.creator.num,
    Cbor.length_nat_le e.flags.bits.toUInt64,
    e.code.length_toItem_le]

theorem listItem_sorted (v : Cbor.Item) : Cbor.KeysSorted [(.nat 1, v)] :=
  List.pairwise_singleton _ _

theorem length_listItem_singleton_le (e : SnapshotEntry) :
    (listItem [e]).encode.length ≤ 248 + e.name.length + (e.code.data.getD []).length := by
  have hmap := Cbor.length_map_le (listItem_sorted (.array [e.toItem]))
  have harray : (Cbor.Item.array [e.toItem]).encode.length ≤ 9 + e.toItem.encode.length := by
    rw [Cbor.Item.encode, List.length_append, Cbor.encodeAll, Cbor.encodeAll, List.append_nil]
    exact Nat.add_le_add_right (Cbor.length_head_le _ _) _
  simp only [List.map_cons, List.map_nil, List.sum_cons, List.sum_nil] at hmap
  change (Cbor.Item.map [(.nat 1, .array [e.toItem])]).encode.length ≤ _
  linarith [Cbor.length_nat_le 1, e.length_toItem_le]

/-- The decoder gives the record of all entries, unless there are too many. -/
theorem decode_listItem (h : (listItem es).encode.length < 2 ^ 64) :
    Cbor.decode (listItem es).encode = if Cbor.maxCount <
      es.length then .error .tooMany else .ok (listItem es) := by
  rcases es with _ | ⟨first, rest⟩
  · apply Cbor.decode_encode
    apply Cbor.Reads.map _ (listItem_sorted _)
    · change 1 ≤ Cbor.maxCount
      decide
    · simp only [List.forall_mem_cons]
      exact ⟨⟨.nat _, .null⟩, List.forall_mem_nil _⟩
  · generalize hes : first :: rest = es at h ⊢
    have hitem : listItem es = .map [(.nat 1, .array (es.map toItem))] := by
      rw [← hes]
      rfl
    have harray : (Cbor.Item.array (es.map toItem)).encode.length < 2 ^ 64 := by
      rw [hitem] at h
      exact (Cbor.length_le_encode_map (listItem_sorted _) (List.mem_singleton.2 rfl)).trans_lt
        h
    rw [hitem]
    split
    · rename_i hmany
      apply Cbor.decode_eq_error
      apply Cbor.Refused.map (.nat _)
      apply Cbor.Refused.array
      · rwa [List.length_map]
      · have hlength : (es.map toItem).length ≤ (Cbor.encodeAll (es.map toItem)).length := by
          apply Cbor.length_items_le
          intro i hi
          obtain ⟨e, -, rfl⟩ := List.mem_map.1 hi
          exact e.length_pos
        rw [Cbor.Item.encode, List.length_append] at harray
        omega
    · rename_i hfew
      apply Cbor.decode_encode
      apply Cbor.Reads.map _ (listItem_sorted _)
      · change 1 ≤ Cbor.maxCount
        decide
      · simp only [List.forall_mem_cons]
        refine ⟨⟨.nat _, .array ?_ ?_⟩, List.forall_mem_nil _⟩
        · intro i hi
          obtain ⟨e, -, rfl⟩ := List.mem_map.1 hi
          exact toItem_reads ((Cbor.length_le_encode_array hi).trans_lt harray)
        · rw [List.length_map]
          exact Nat.not_lt.1 hfew

theorem mapM_ofItem (es : List SnapshotEntry) :
    (es.map toItem).mapM ofItem = if ∀ e ∈ es,
      Utf8.isValid e.name = true then .ok es else .error .notUtf8 := by
  induction es with
  | nil => rfl
  | cons e rest ih =>
    have hall : (∀ e' ∈ e :: rest, Utf8.isValid e'.name = true) ↔
        Utf8.isValid e.name = true ∧ ∀ e' ∈ rest, Utf8.isValid e'.name = true :=
      List.forall_mem_cons
    rw [List.map_cons, List.mapM_cons, ofItem_toItem, ih]
    by_cases hfirst : Utf8.isValid e.name = true
    · rw [if_pos hfirst]
      by_cases hrest : ∀ e ∈ rest, Utf8.isValid e.name = true
      · rw [if_pos hrest, if_pos (hall.2 ⟨hfirst, hrest⟩)]
        rfl
      · rw [if_neg hrest, if_neg fun h => hrest (hall.1 h).2]
        rfl
    · rw [if_neg hfirst, if_neg fun h => hfirst (hall.1 h).1]
      rfl

theorem ofListItem_listItem (es : List SnapshotEntry) :
    ofListItem (listItem es) = if ∀ e ∈ es,
      Utf8.isValid e.name = true then .ok es else .error .notUtf8 := by
  rw [← mapM_ofItem]
  rcases es with _ | ⟨e, rest⟩
  · rfl
  · rfl

end SnapshotEntry

/-- What reading a snapshot gives that was written for some entries. -/
theorem Db.readEntries_write {nonce raw : Bytes} {key : Option Bytes} {es : List SnapshotEntry}
    (hnonce : nonce.length = Aead.nonceSize) (hraw : raw.length < 2 ^ 64)
    (h : Snapshot.write nonce key (SnapshotEntry.listItem es) = .ok raw) :
    Db.readEntries key raw =
      if Cbor.maxCount < es.length then .error (.decoding .tooMany)
      else if ∀ e ∈ es, Utf8.isValid e.name = true then .ok es
      else .error (.decoding .notUtf8) := by
  have hitem := (Snapshot.length_le_of_write h).trans_lt hraw
  rw [Db.readEntries, Snapshot.read_write hnonce hitem h, SnapshotEntry.decode_listItem hitem]
  by_cases hmany : Cbor.maxCount < es.length
  · rw [if_pos hmany, if_pos hmany]
    rfl
  · rw [if_neg hmany, if_neg hmany]
    change (SnapshotEntry.ofListItem (SnapshotEntry.listItem es)).mapError
      Snapshot.Error.decoding = _
    rw [SnapshotEntry.ofListItem_listItem]
    by_cases hvalid : ∀ e ∈ es, Utf8.isValid e.name = true
    · rw [if_pos hvalid, if_pos hvalid]
      rfl
    · rw [if_neg hvalid, if_neg hvalid]
      rfl

/-- How the lock of an entry looks, as far as it can be read. -/
def SnapshotEntry.view (e : SnapshotEntry) : LockView :=
  ⟨e.object, e.created, e.name, e.creator, e.flags, e.code.unpack.toOption.join⟩

def SnapshotEntry.Placed (s : Store) (e : SnapshotEntry) : Prop :=
  s.HasLock e.object e.name e.creator e.flags e.view.code

/-- An open lock has no entry, and the entry of any other lock looks like it. -/
theorem LockView.entry_cases {c : Compression} {v : LockView} {r : Option SnapshotEntry}
    (h : v.entry c = .ok r) :
    v.code.isSome = false ∧ r = none ∨ v.code.isSome = true ∧ ∃ e, r = some e ∧ e.view = v := by
  obtain ⟨object, created, name, creator, flags, _ | code⟩ := v
  · cases h
    exact .inl ⟨rfl, rfl⟩
  · rcases hpack : Packed.pack c (some code) with e | p
    · simp only [entry, hpack] at h
      cases h
    · simp only [entry, hpack] at h
      cases h
      refine .inr ⟨rfl, _, rfl, ?_⟩
      rw [SnapshotEntry.view, Packed.unpack_pack hpack]
      rfl

/-- The entries look like the locks they were made for. -/
theorem LockView.view_entries {c : Compression} {views : List LockView}
    {found : List (Option SnapshotEntry)} (h : views.mapM (entry c) = .ok found) :
    (found.filterMap id).map SnapshotEntry.view = views.filter (·.code.isSome) := by
  induction views generalizing found with
  | nil =>
    cases h
    rfl
  | cons v rest ih =>
    rw [List.mapM_cons] at h
    rcases hfirst : v.entry c with e | first
    · rw [hfirst] at h
      cases h
    · rcases hrest : rest.mapM (entry c) with e | others
      · rw [hfirst, hrest] at h
        cases h
      · rw [hfirst, hrest] at h
        cases h
        have hothers := ih hrest
        rcases entry_cases hfirst with ⟨hopen, rfl⟩ | ⟨hcode, e, rfl, rfl⟩
        · rw [List.filterMap_cons_none rfl, hothers, List.filter_cons, hopen]
          rfl
        · have hkept : (some e :: others).filterMap id = e :: others.filterMap id := rfl
          rw [hkept, List.map_cons, hothers, List.filter_cons, if_pos hcode]

namespace Reached

variable {σ : Session} {nonce raw : Bytes} {c : Compression} {key : Option Bytes} {n : Nat}

/-- What a snapshot was written for. -/
theorem entries_of_writeSnapshot (h : Reached σ)
    (hwrite : σ.store.writeSnapshot nonce c key = .ok (n, raw)) :
    ∃ es, Snapshot.write nonce key (SnapshotEntry.listItem es) = .ok raw ∧ es.length = n ∧
      es.map SnapshotEntry.view = σ.store.lockViews.filter (·.code.isSome) := by
  rw [Store.writeSnapshot, h.snapshotEntries_eq] at hwrite
  rcases hfound : σ.store.lockViews.mapM (LockView.entry c) with e | found
  · rw [hfound] at hwrite
    cases hwrite
  · rw [hfound] at hwrite
    rcases hraw : Snapshot.write nonce key (SnapshotEntry.listItem (found.filterMap id)) with
      e | raw'
    · simp only [Except.map, bind, Except.bind, hraw] at hwrite
      cases hwrite
    · simp only [Except.map, bind, Except.bind, hraw] at hwrite
      cases hwrite
      exact ⟨_, hraw, rfl, LockView.view_entries hfound⟩

section Entries

variable {es : List SnapshotEntry} (h : Reached σ)
  (hes : es.map SnapshotEntry.view = σ.store.lockViews.filter (·.code.isSome))
include h hes

/-- Every entry of a snapshot is for a lock that is not open. -/
theorem placed_of_mem {e : SnapshotEntry} (he : e ∈ es) :
    e.Placed σ.store ∧ e.view.code.isSome = true ∧
    (σ.store.get? e.object).map (·.created) = some e.created := by
  have hview := List.mem_map_of_mem (f := SnapshotEntry.view) he
  rw [hes, List.mem_filter, h.mem_lockViews] at hview
  exact ⟨hview.1.2, hview.2, hview.1.1⟩

/-- Every lock that is not open has an entry. -/
theorem entry_of_hasLock {d creator : Dbref} {name code : Bytes} {flags : LockFlags}
    (hlock : σ.store.HasLock d name creator flags (some code)) :
    ∃ e ∈ es, (σ.store.get? d).map (·.created) = some e.created ∧
      e.view = ⟨d, e.created, name, creator, flags, some code⟩ := by
  obtain ⟨created, hcreated, hview⟩ := h.view_of_hasLock hlock
  have hentry : ⟨d, created, name, creator, flags, some code⟩ ∈ es.map SnapshotEntry.view := by
    rw [hes]
    exact List.mem_filter.2 ⟨hview, rfl⟩
  obtain ⟨e, he, hsame⟩ := List.mem_map.1 hentry
  obtain rfl : e.created = created := congrArg LockView.created hsame
  exact ⟨e, he, hcreated, hsame⟩

/-- The names in a snapshot are those of the locks that are not open. -/
theorem mem_entry_names {name : Bytes} :
    (∃ e ∈ es, e.name = name) ↔
    ∃ d creator flags code, σ.store.HasLock d name creator flags (some code) := by
  constructor
  · rintro ⟨e, he, rfl⟩
    obtain ⟨hlock, hcode, -⟩ := h.placed_of_mem hes he
    obtain ⟨code, hcode⟩ := Option.isSome_iff_exists.1 hcode
    rw [SnapshotEntry.Placed, hcode] at hlock
    exact ⟨_, _, _, code, hlock⟩
  · rintro ⟨d, creator, flags, code, hlock⟩
    obtain ⟨e, he, -, hview⟩ := h.entry_of_hasLock hes hlock
    exact ⟨e, he, congrArg LockView.name hview⟩

end Entries

/-- A snapshot that was written can be read with the same key just if it has not too many
entries for the decoder and all names in it are UTF-8. -/
theorem readEntries_writeSnapshot (h : Reached σ) (hnonce : nonce.length = Aead.nonceSize)
    (hwrite : σ.store.writeSnapshot nonce c key = .ok (n, raw)) (hraw : raw.length < 2 ^ 64) :
    (Cbor.maxCount < n → Db.readEntries key raw = .error (.decoding .tooMany)) ∧
    (n ≤ Cbor.maxCount →
      (∃ d name creator flags code,
        σ.store.HasLock d name creator flags (some code) ∧ Utf8.isValid name = false) →
      Db.readEntries key raw = .error (.decoding .notUtf8)) ∧
    (n ≤ Cbor.maxCount →
      (∀ d name creator flags code, σ.store.HasLock d name creator flags (some code) →
        Utf8.isValid name = true) →
      ∃ es, Db.readEntries key raw = .ok es ∧ es.length = n) := by
  obtain ⟨es, hes, rfl, hviews⟩ := h.entries_of_writeSnapshot hwrite
  have hread := Db.readEntries_write hnonce hraw hes
  refine ⟨?_, ?_, ?_⟩
  · intro hmany
    rw [hread, if_pos hmany]
  · rintro hfew ⟨d, name, creator, flags, code, hlock, hinvalid⟩
    obtain ⟨e, he, rfl⟩ := (h.mem_entry_names hviews).2 ⟨d, creator, flags, code, hlock⟩
    rw [hread, if_neg (Nat.not_lt.2 hfew), if_neg]
    intro hall
    rw [hall e he] at hinvalid
    cases hinvalid
  · intro hfew hvalid
    refine ⟨es, ?_, rfl⟩
    rw [hread, if_neg (Nat.not_lt.2 hfew), if_pos]
    intro e he
    obtain ⟨d, creator, flags, code, hlock⟩ := (h.mem_entry_names hviews).1 ⟨e, he, rfl⟩
    exact hvalid d e.name creator flags code hlock

theorem lockViews_single {o : Object} {l : LockRecord} {code : LockCode}
    (ho : σ.store.objects = [o]) (hl : o.locks.values = [l])
    (hlock : σ.store.HasLock o.id l.name l.creator l.flags code) :
    σ.store.lockViews = [⟨o.id, o.created, l.name, l.creator, l.flags, code⟩] := by
  obtain ⟨l', hfound, -⟩ := hlock
  rw [Store.lockViews, ho, List.flatMap_singleton, Object.lockRecords, hl,
    List.mergeSort_singleton, List.map_singleton, Store.lockView, hfound]
  rfl

/-- A database with one lock has a small snapshot. -/
theorem writeSnapshot_single (h : Reached σ) (hc : c.Supported) {v : LockView} {code : Bytes}
    (hviews : σ.store.lockViews = [v]) (hcode : v.code = some code) (nonce : Bytes) :
    ∃ raw, σ.store.writeSnapshot nonce c none = .ok (1, raw) ∧
      raw.length ≤ 335 + v.name.length + code.length := by
  have hlength := h.length_code_le (v := v) (by rw [hviews]; exact List.mem_singleton.2 rfl)
  rw [hcode] at hlength
  have hpack := Packed.pack_supported hc (some code)
  rw [if_neg (Nat.not_lt.2 hlength)] at hpack
  obtain ⟨p, hp⟩ := hpack
  have hdata : (p.data.getD []).length ≤ code.length := by
    obtain ⟨-, -, ⟨-, hsame⟩ | ⟨-, out, hout, hshort⟩⟩ := Packed.pack_cases hp
    · rw [hsame]
      exact Nat.le_refl _
    · rw [hout]
      exact hshort.le
  have hentry :
      v.entry c = .ok (some ⟨v.object, v.created, v.name, v.creator, v.flags, p⟩) := by
    simp only [LockView.entry, hcode, hp]
    rfl
  have hentries :
      σ.store.snapshotEntries c =
        .ok [⟨v.object, v.created, v.name, v.creator, v.flags, p⟩] := by
    rw [h.snapshotEntries_eq, hviews, List.mapM_cons, List.mapM_nil, hentry]
    rfl
  rw [Store.writeSnapshot, hentries]
  refine ⟨_, rfl, ?_⟩
  rw [List.length_append, Snapshot.length_header, Snapshot.headerSize]
  have hbody := Snapshot.length_body_le
    (SnapshotEntry.listItem [⟨v.object, v.created, v.name, v.creator, v.flags, p⟩]).encode
  have hlist :=
    SnapshotEntry.length_listItem_singleton_le
      ⟨v.object, v.created, v.name, v.creator, v.flags, p⟩
  dsimp only at hlist
  omega

theorem lockViews_lockedAs (name : Bytes) :
    (lockedAs name).store.lockViews = [⟨0, 0, lockName name, 0, ⟨0⟩, some "a"⟩] :=
  lockViews_single (o := (Object.new 0 0).putLock ⟨lockName name, 0, ⟨0⟩, ⟨1⟩⟩) rfl rfl
    (hasLock_lockedAs name)

theorem writeSnapshot_lockedAs (name : Bytes) (hname : (lockName name).length ≤ 100)
    (nonce : Bytes) :
    ∃ raw, (lockedAs name).store.writeSnapshot nonce .none none = .ok (1, raw) ∧
      raw.length < 2 ^ 64 := by
  obtain ⟨raw, hwrite, hlength⟩ :=
    (lockedAs_reached name).writeSnapshot_single (c := .none) (by decide)
    (lockViews_lockedAs name) rfl nonce
  have hone : List.length ("a" : Bytes) = 1 := rfl
  refine ⟨raw, hwrite, hlength.trans_lt ?_⟩
  dsimp only
  omega

theorem readEntries_writeSnapshot_misnamed :
    ∃ raw, (lockedAs [0xff]).store.writeSnapshot (.replicate 24 0) .none none = .ok (1, raw) ∧
      raw.length < 2 ^ 64 ∧
      Db.readEntries none raw = .error (.decoding .notUtf8) := by
  obtain ⟨raw, hwrite, hraw⟩ := writeSnapshot_lockedAs [0xff] (by decide) (.replicate 24 0)
  obtain ⟨-, hinvalid, -⟩ :=
    readEntries_writeSnapshot (lockedAs_reached [0xff]) List.length_replicate hwrite hraw
  exact ⟨raw, hwrite, hraw,
    hinvalid (by decide) ⟨0, [0xff], 0, ⟨0⟩, "a", hasLock_lockedAs [0xff], by decide⟩⟩

/-- Not whatever is written can be read. -/
theorem written_not_readable :
    ¬∀ (σ : Session) (nonce : Bytes) (c : Compression) (key : Option Bytes) (n : Nat)
      (raw : Bytes), Reached σ →
      σ.store.writeSnapshot nonce c key = .ok (n, raw) →
      ∃ es, Db.readEntries key raw = .ok es := by
  intro hread
  have hreached := lockedAs_reached [0xff]
  obtain ⟨raw, hwrite, hraw⟩ := writeSnapshot_lockedAs [0xff] (by decide) (.replicate 24 0)
  obtain ⟨es, hes⟩ := hread _ _ _ _ _ _ hreached hwrite
  obtain ⟨es', hwritten, hone, hviews⟩ := hreached.entries_of_writeSnapshot hwrite
  obtain ⟨e, he, hname⟩ :=
    (hreached.mem_entry_names hviews).2 ⟨0, 0, ⟨0⟩, "a", hasLock_lockedAs [0xff]⟩
  rw [Db.readEntries_write List.length_replicate hraw hwritten, if_neg (by rw [hone]; decide),
    if_neg] at hes
  · cases hes
  · intro hvalid
    have hbad := hvalid e he
    rw [hname] at hbad
    exact absurd hbad (by decide)

end Reached
end Database
end Locksmith
