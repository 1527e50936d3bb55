import Locksmith.Proofs.Database.Building
import Locksmith.Proofs.Database.Containment
import Locksmith.Proofs.Database.LockPlacing

namespace Locksmith

section
variable {ε α σ : Type} {f : σ → α → Except ε σ} {a : α} {l l' : List α} {s s' : σ}

theorem foldlM_cons_eq_ok :
    (a :: l).foldlM f s = .ok s' ↔ ∃ mid, f s a = .ok mid ∧ l.foldlM f mid = .ok s' := by
  rw [List.foldlM_cons]
  rcases f s a with e | mid
  · exact iff_of_false (fun h => by cases h) fun h => by
      obtain ⟨_, h, -⟩ := h
      cases h
  · simp only [Except.ok.injEq, exists_eq_left']
    rfl

/-- Steps of which any two may change places lead to the same end in any order. -/
theorem foldlM_perm
    (hcomm : ∀ s a b mid s', f s a = .ok mid → f mid b = .ok s' →
      ∃ mid', f s b = .ok mid' ∧ f mid' a = .ok s')
    (hperm : l.Perm l') (h : l.foldlM f s = .ok s') : l'.foldlM f s = .ok s' := by
  induction hperm generalizing s with
  | nil => exact h
  | cons a _ ih =>
    obtain ⟨mid, hstep, hrest⟩ := foldlM_cons_eq_ok.1 h
    exact foldlM_cons_eq_ok.2 ⟨mid, hstep, ih hrest⟩
  | swap a b l =>
    obtain ⟨mid, hfirst, hrest⟩ := foldlM_cons_eq_ok.1 h
    obtain ⟨last, hsecond, hrest⟩ := foldlM_cons_eq_ok.1 hrest
    obtain ⟨mid', hfirst', hsecond'⟩ := hcomm s b a mid last hfirst hsecond
    exact foldlM_cons_eq_ok.2 ⟨mid', hfirst', foldlM_cons_eq_ok.2 ⟨last, hsecond', hrest⟩⟩
  | trans _ _ ih ih' => exact ih' (ih h)

end

namespace Database

def ObjectSpec.place (spec : ObjectSpec) : Dbref := spec.location.getD .nothing

/-- The objects of a world in the order of their numbers, in which they are placed and
furnished. -/
def WorldFile.inOrder (w : WorldFile) : List ObjectSpec :=
  w.objects.mergeSort fun a b => a.id.num ≤ b.id.num

namespace Store

variable {s s' : Store} {spec : ObjectSpec} {l l' : List ObjectSpec} {d : Dbref}

def addWritten (s : Store) (spec : ObjectSpec) : Except LoadError Store :=
  match spec.build with
  | .error e => .error e
  | .ok o => (s.add o).mapError .adding

def addAll (s : Store) (l : List ObjectSpec) : Except LoadError Store := l.foldlM addWritten s

def placeWritten (s : Store) (spec : ObjectSpec) : Except LoadError Store :=
  if spec.place = .nothing then .ok s
  else (s.move spec.id spec.place).mapError (.placing spec.id)

def placeAll (s : Store) (l : List ObjectSpec) : Except LoadError Store :=
  l.foldlM placeWritten s

theorem addWritten_eq_ok :
    s.addWritten spec = .ok s' ↔ ∃ o, spec.build = .ok o ∧ s.add o = .ok s' := by
  unfold addWritten
  rcases spec.build with e | o
  · simp
  · simp only [Except.ok.injEq, exists_eq_left']
    rcases s.add o with e | s''
    · simp [Except.mapError]
    · simp [Except.mapError]

theorem addWritten_comm {spec' : ObjectSpec} {mid : Store} (h : s.addWritten spec = .ok mid)
    (h' : mid.addWritten spec' = .ok s') :
    ∃ mid', s.addWritten spec' = .ok mid' ∧ mid'.addWritten spec = .ok s' := by
  obtain ⟨o, hbuild, hadd⟩ := addWritten_eq_ok.1 h
  obtain ⟨o', hbuild', hadd'⟩ := addWritten_eq_ok.1 h'
  obtain ⟨hnumber, hfree, rfl⟩ := add_eq_ok.1 hadd
  obtain ⟨hnumber', hfree', rfl⟩ := add_eq_ok.1 hadd'
  -- the first object does not stop the second, so it has another number
  have hne : o'.id ≠ o.id := by
    intro hsame
    rw [hsame, SortedMap.get?_insert_self] at hfree'
    cases hfree'
  rw [SortedMap.get?_insert_of_ne _ _ hne] at hfree'
  refine ⟨_, addWritten_eq_ok.2 ⟨o', hbuild', add_eq_ok.2 ⟨hnumber', hfree', rfl⟩⟩,
    addWritten_eq_ok.2 ⟨o, hbuild, add_eq_ok.2 ⟨hnumber, ?_, ?_⟩⟩⟩
  · rw [SortedMap.get?_insert_of_ne _ _ hne.symm, hfree]
  · congr 1
    refine SortedMap.ext_get? fun d => ?_
    simp only [SortedMap.get?_insert, Std.LawfulEqOrd.compare_eq_iff_eq]
    by_cases hd : d = o.id
    · rw [if_neg (hd ▸ hne.symm), if_pos hd, if_pos hd]
    · rw [if_neg hd, if_neg hd]

theorem addAll_perm (hperm : l.Perm l') (h : s.addAll l = .ok s') : s.addAll l' = .ok s' :=
  foldlM_perm (fun _ _ _ _ _ => addWritten_comm) hperm h

def SameKeeping (s s' : Store) : Prop := s'.settings = s.settings ∧ s'.chunks = s.chunks

theorem SameKeeping.trans {s'' : Store} (h : SameKeeping s s') (h' : SameKeeping s' s'') :
    SameKeeping s s'' :=
  ⟨h'.1.trans h.1, h'.2.trans h.2⟩

theorem addWritten_kept (h : s.addWritten spec = .ok s') : SameKeeping s s' := by
  obtain ⟨o, -, hadd⟩ := addWritten_eq_ok.1 h
  obtain ⟨-, -, rfl⟩ := add_eq_ok.1 hadd
  exact ⟨rfl, rfl⟩

/-- The objects that were added have numbers of their own, lie nowhere and hold nothing. -/
structure Added (s : Store) (l : List ObjectSpec) (s' : Store) : Prop where
  built : ∀ spec ∈ l, ∃ o, spec.build = .ok o
  distinct : (l.map (·.id)).Nodup
  free : ∀ spec ∈ l, s.slots.get? spec.id = none
  location : ∀ d, s'.locationOf d = if d ∈ l.map (·.id) then some .nothing else s.locationOf d
  contents : ∀ d, s'.contentsOf d = if d ∈ l.map (·.id) then [] else s.contentsOf d
  arranged : s.Arranged → s'.Arranged
  kept : SameKeeping s s'

theorem added_of_addAll (h : s.addAll l = .ok s') : Added s l s' := by
  unfold addAll at h
  induction l generalizing s with
  | nil =>
    cases h
    exact ⟨List.forall_mem_nil _, List.nodup_nil, List.forall_mem_nil _, fun _ => rfl,
      fun _ => rfl, id, rfl, rfl⟩
  | cons spec rest ih =>
    obtain ⟨mid, hfirst, hrest⟩ := foldlM_cons_eq_ok.1 h
    obtain ⟨o, hbuild, hadd⟩ := addWritten_eq_ok.1 hfirst
    obtain ⟨-, hfree, hmid⟩ := add_eq_ok.1 hadd
    obtain ⟨-, hid⟩ := ObjectSpec.build_spec hbuild
    obtain ⟨hunplaced, -⟩ := ObjectSpec.build_unplaced hbuild
    have hslot (d : Dbref) :
        mid.slots.get? d = if d = spec.id then some (.live o) else s.slots.get? d := by
      rw [hmid, ← hid]
      simp only [SortedMap.get?_insert, Std.LawfulEqOrd.compare_eq_iff_eq]
    have hget (d : Dbref) : mid.get? d = if d = spec.id then some o else s.get? d := by
      rw [hmid, ← hid]
      exact s.get?_insert o.id (.live o) d
    have hrest := ih hrest
    have hother : spec.id ∉ rest.map (·.id) := by
      intro hmem
      obtain ⟨other, hother, hsame⟩ := List.mem_map.1 hmem
      have htaken := hrest.free other hother
      rw [hslot, if_pos hsame] at htaken
      cases htaken
    constructor
    · exact List.forall_mem_cons.2 ⟨⟨o, hbuild⟩, hrest.built⟩
    · exact List.nodup_cons.2 ⟨hother, hrest.distinct⟩
    · refine List.forall_mem_cons.2 ⟨hid ▸ hfree, fun other hmem => ?_⟩
      rw [← hrest.free other hmem, hslot, if_neg]
      exact fun hsame => hother (hsame ▸ List.mem_map_of_mem hmem)
    · intro d
      rw [hrest.location, locationOf, hget, List.map_cons]
      by_cases hd : d = spec.id
      · rw [if_pos hd, if_neg (hd ▸ hother), if_pos (hd ▸ List.mem_cons_self), Option.map_some,
          hunplaced.location]
      · rw [if_neg hd]
        simp only [List.mem_cons, hd, false_or]
        rfl
    · intro d
      rw [hrest.contents, contentsOf, hget, List.map_cons]
      by_cases hd : d = spec.id
      · rw [if_pos hd, if_neg (hd ▸ hother), if_pos (hd ▸ List.mem_cons_self)]
        exact hunplaced.contents
      · rw [if_neg hd]
        simp only [List.mem_cons, hd, false_or]
        rfl
    · exact fun h => hrest.arranged (h.add hunplaced hadd)
    · exact (addWritten_kept hfirst).trans hrest.kept

/-- Each of the objects that were added is there as it was built, and no other object changes.
-/
theorem get?_of_addAll (h : s.addAll l = .ok s') :
    (∀ spec ∈ l, ∃ o, spec.build = .ok o ∧ s'.get? spec.id = some o) ∧
      ∀ d, d ∉ l.map (·.id) → s'.get? d = s.get? d := by
  have hdistinct := (added_of_addAll h).distinct
  unfold addAll at h
  induction l generalizing s with
  | nil =>
    cases h
    exact ⟨List.forall_mem_nil _, fun _ _ => rfl⟩
  | cons spec rest ih =>
    obtain ⟨hnot, hdistinct⟩ := List.nodup_cons.1 hdistinct
    obtain ⟨mid, hfirst, hrest⟩ := foldlM_cons_eq_ok.1 h
    obtain ⟨o, hbuild, hadd⟩ := addWritten_eq_ok.1 hfirst
    obtain ⟨-, -, rfl⟩ := add_eq_ok.1 hadd
    obtain ⟨-, hid⟩ := ObjectSpec.build_spec hbuild
    obtain ⟨hbuilt, hothers⟩ := ih hrest hdistinct
    constructor
    · refine List.forall_mem_cons.2 ⟨⟨o, hbuild, ?_⟩, hbuilt⟩
      rw [hothers spec.id hnot, get?_insert, if_pos hid.symm]
      rfl
    · intro d hd
      rw [List.map_cons, List.mem_cons, not_or] at hd
      rw [hothers d hd.2, get?_insert, if_neg (hid ▸ hd.1)]

/-- Objects that can be built are added if their numbers are free and distinct. -/
theorem exists_addAll (hbuilt : ∀ spec ∈ l, ∃ o, spec.build = .ok o)
    (hdistinct : (l.map (·.id)).Nodup) (hfree : ∀ spec ∈ l, s.slots.get? spec.id = none) :
    ∃ s', s.addAll l = .ok s' := by
  induction l generalizing s with
  | nil => exact ⟨s, rfl⟩
  | cons spec rest ih =>
    obtain ⟨⟨o, hbuild⟩, hbuilt⟩ := List.forall_mem_cons.1 hbuilt
    obtain ⟨hnot, hdistinct⟩ := List.nodup_cons.1 hdistinct
    obtain ⟨hhere, hfree⟩ := List.forall_mem_cons.1 hfree
    obtain ⟨hnamed, hid⟩ := ObjectSpec.build_spec hbuild
    have hadd := add_eq_ok.2 ⟨hid ▸ hnamed.number, hid ▸ hhere, rfl⟩
    have hfree' : ∀ other ∈ rest, (s.slots.insert o.id (.live o)).get? other.id = none := by
      intro other hmem
      rw [hid, SortedMap.get?_insert_of_ne, hfree other hmem]
      exact fun hsame => hnot (List.mem_map.2 ⟨other, hmem, hsame⟩)
    obtain ⟨s', hrest⟩ :=
      ih (s := { s with slots := s.slots.insert o.id (.live o) }) hbuilt hdistinct hfree'
    exact ⟨s', foldlM_cons_eq_ok.2 ⟨_, addWritten_eq_ok.2 ⟨o, hbuild, hadd⟩, hrest⟩⟩

theorem placeWritten_eq_ok :
    s.placeWritten spec = .ok s' ↔
      spec.place = .nothing ∧ s' = s ∨ spec.place ≠ .nothing ∧
      s.move spec.id spec.place = .ok s' := by
  unfold placeWritten
  split
  · rename_i hplace
    simp [hplace, eq_comm]
  · rename_i hplace
    rcases s.move spec.id spec.place with e | s''
    · simp [hplace, Except.mapError]
    · simp [hplace, Except.mapError]

theorem settings_modify (s : Store) (d : Dbref) (f : Object → Object) :
    (s.modify d f).settings = s.settings := by
  unfold modify
  split
  · rfl
  · rfl

theorem move_kept {dest : Dbref} (h : s.move d dest = .ok s') : SameKeeping s s' := by
  obtain ⟨o, -, -, -, rfl⟩ := move_eq_ok h
  simp only [SameKeeping, settings_modify, chunks_modify, and_self]

theorem placeWritten_kept (h : s.placeWritten spec = .ok s') : SameKeeping s s' := by
  rcases placeWritten_eq_ok.1 h with ⟨-, rfl⟩ | ⟨-, hmove⟩
  · exact ⟨rfl, rfl⟩
  · exact move_kept hmove

/-- Placing objects keeps settings and chunks. -/
theorem placeAll_kept (h : s.placeAll l = .ok s') : SameKeeping s s' := by
  unfold placeAll at h
  induction l generalizing s with
  | nil =>
    cases h
    exact ⟨rfl, rfl⟩
  | cons spec rest ih =>
    obtain ⟨mid, hfirst, hrest⟩ := foldlM_cons_eq_ok.1 h
    exact (placeWritten_kept hfirst).trans (ih hrest)

section
variable {α : Type} {f : Object → α}

theorem map_get?_modify (s : Store) (d : Dbref) {g : Object → Object} (h : ∀ o, f (g o) = f o)
    (a : Dbref) : ((s.modify d g).get? a).map f = (s.get? a).map f := by
  rw [get?_modify]
  split
  · rename_i ha
    rw [ha, Option.map_map]
    exact congrArg (Option.map · _) (funext h)
  · rfl

/-- Placing objects changes nothing about them but where they lie and what they hold. -/
theorem map_get?_placeAll
    (hf : ∀ o location contents, f { o with location, contents } = f o)
    (h : s.placeAll l = .ok s') (d : Dbref) : (s'.get? d).map f = (s.get? d).map f := by
  unfold placeAll at h
  induction l generalizing s with
  | nil =>
    cases h
    rfl
  | cons spec rest ih =>
    obtain ⟨mid, hfirst, hrest⟩ := foldlM_cons_eq_ok.1 h
    rw [ih hrest]
    rcases placeWritten_eq_ok.1 hfirst with ⟨-, rfl⟩ | ⟨-, hmove⟩
    · rfl
    · obtain ⟨o, -, -, -, rfl⟩ := move_eq_ok hmove
      rw [map_get?_modify (g := (·.addItem spec.id)) (h := fun o => hf o o.location _),
        map_get?_modify (g := ({ · with location := spec.place }))
          (h := fun o => hf o _ o.contents),
        map_get?_modify (g := (·.dropItem spec.id)) (h := fun o => hf o o.location _)]

end

/-- Nothing has changed but locks and channels, and what belongs to them. -/
structure Undisturbed (s₀ s : Store) : Prop where
  same : SameUnlocked s₀ s
  settings : s.settings = s₀.settings
  compression : s.chunks.compression = s₀.chunks.compression

theorem Undisturbed.refl (s : Store) : Undisturbed s s := ⟨.refl s, rfl, rfl⟩

theorem Undisturbed.trans {s₀ : Store} (h : Undisturbed s₀ s) (h' : Undisturbed s s') :
    Undisturbed s₀ s' :=
  ⟨h.same.trans h'.same, h'.settings.trans h.settings, h'.compression.trans h.compression⟩

theorem settings_forget (s : Store) (old : Option LockRecord) :
    (s.forget old).settings = s.settings := by
  cases old with
  | none => rfl
  | some l =>
    rw [forget, releaseChunk]
    split
    · rfl
    · rcases s.chunks.delete l.ref with _ | chunks
      · rfl
      · rfl

theorem Relocked.undisturbed {name : Bytes} {creator : Dbref} {flags : LockFlags}
    (h : Relocked s d name creator flags s') : Undisturbed s s' := by
  refine ⟨h.sameUnlocked, ?_, ?_⟩
  · cases h with
    | same => rfl
    | freed => rw [settings_forget, settings_modify]
    | put => rw [settings_forget, settings_modify]
  · cases h with
    | same => rfl
    | freed => rw [(setting_forget _ _).1, chunks_modify]
    | put _ p => exact compression_withLock s d _ name creator flags p

end Store

/-- The lock flags are known, and the lock compiles to code that fits into a chunk. -/
def LockSpec.Sound (classes : ClassTable) (name : Bytes) (l : LockSpec) : Prop :=
  (∃ flags, LockFlags.ofNames l.flags = .ok flags) ∧
    ∃ code, (⟨classes, none⟩ : Lock.Compiler).compileLoad l.source name = .ok code ∧
      code.size ≤ maxChunkSize

namespace Db

open Store

variable {ε β γ : Type} {s₀ : Store} {p : Store → Prop}

/-- What every turn of a loop keeps, the loop keeps. -/
theorem Ensures.forIn_keeps {f : γ → Db ε Unit} (h : ∀ a, Ensures p (f a) fun _ => p)
    (l : List γ) :
    Ensures p (ForIn.forIn l PUnit.unit fun a _ => do f a; return .yield PUnit.unit) fun _ =>
      p :=
  @Ensures.forIn_keep ε γ f (fun _ => p) (fun _ _ _ hs => hs) (fun _ => h) 0 l

theorem Ensures.bind_ok {x : Db ε Unit} {f : Unit → Db ε β} {p' : Store → Prop}
    {q : Except ε β → Store → Prop} (hx : Ensures p x fun out s => out = .ok () ∧ p' s)
    (hf : Ensures p' (f ()) q) : Ensures p (x >>= f) q := by
  refine .bind hx (fun _ => hf.imp (fun _ h => h.2) fun _ _ h => h) ?_
  rintro e s ⟨hout, -⟩
  cases hout

/-- If every turn of a loop succeeds, the loop does. -/
theorem Ensures.forIn_succeeds {f : γ → Db ε Unit} {l : List γ}
    (h : ∀ a ∈ l, Ensures p (f a) fun out s => out = .ok () ∧ p s) :
    Ensures p (ForIn.forIn l PUnit.unit fun a _ => do f a; return .yield PUnit.unit)
      fun out s =>
      out = .ok PUnit.unit ∧ p s := by
  induction l with
  | nil => exact .pure fun _ hs => ⟨rfl, hs⟩
  | cons a rest ih =>
    obtain ⟨hfirst, hrest⟩ := List.forall_mem_cons.1 h
    rw [List.forIn_cons]
    simp only [bind_assoc, pure_bind]
    exact .bind_ok hfirst (ih hrest)

section
variable {f : Store → γ → Except ε Store} {l : List γ} {σ : Session} {s : Store}
  {k : PUnit → Db ε β}

theorem run_change {f : Store → Except ε Store} (h : f σ.store = .ok s) (k : Unit → Db ε β) :
    (change f >>= k).run.run σ = (k ()).run.run { σ with store := s } := by
  change ((ofExcept (f σ.store) >>= fun s => putStore s) >>= k).run.run σ = _
  rw [h]
  rfl

theorem run_change_error {f : Store → Except ε Store} {e : ε} (h : f σ.store = .error e)
    (k : Unit → Db ε β) :
    (change f >>= k).run.run σ = (.error e, σ) := by
  change ((ofExcept (f σ.store) >>= fun s => putStore s) >>= k).run.run σ = _
  rw [h]
  rfl

/-- A loop that changes the database takes it through the changes in turn. -/
theorem run_forIn_change (h : l.foldlM f σ.store = .ok s) (k : PUnit → Db ε β) :
    ((ForIn.forIn l PUnit.unit fun a _ => do
        change (f · a); return .yield PUnit.unit) >>= k).run.run σ =
      (k PUnit.unit).run.run { σ with store := s } := by
  induction l generalizing σ with
  | nil =>
    cases h
    rfl
  | cons a rest ih =>
    obtain ⟨mid, hfirst, hrest⟩ := foldlM_cons_eq_ok.1 h
    rw [List.forIn_cons]
    simp only [bind_assoc, pure_bind]
    rw [run_change hfirst]
    exact ih hrest

/-- A loop that changes the database succeeds only if every change does. -/
theorem exists_of_forIn_change {b : β}
    (h : (((ForIn.forIn l PUnit.unit fun a _ => do
      change (f · a); return .yield PUnit.unit) >>= k).run.run σ).1 = .ok b) :
    ∃ s, l.foldlM f σ.store = .ok s := by
  induction l generalizing σ with
  | nil => exact ⟨σ.store, rfl⟩
  | cons a rest ih =>
    rw [List.forIn_cons] at h
    simp only [bind_assoc, pure_bind] at h
    rcases hfirst : f σ.store a with e | mid
    · rw [run_change_error hfirst] at h
      cases h
    · rw [run_change hfirst] at h
      obtain ⟨s, hs⟩ := ih h
      exact ⟨s, foldlM_cons_eq_ok.2 ⟨mid, hfirst, hs⟩⟩

end

theorem loadObject_eq (spec : ObjectSpec) : loadObject spec = change (·.addWritten spec) := by
  unfold loadObject addWritten
  rcases spec.build with e | o
  · rfl
  · rfl

theorem placeObject_eq (spec : ObjectSpec) :
    placeObject spec = change (·.placeWritten spec) := by
  unfold placeObject placeWritten
  change (if spec.place = .nothing then _ else _) = _
  split
  · rfl
  · rfl

/-- What is left to do once all objects are in their places: locks are set and channels are
added. -/
def furnish (l : List ObjectSpec) (channels : List ChannelSpec) : Db LoadError Unit := do
  for spec in l do loadLocks spec
  for c in channels do loadChannel c
  log ⟨.info, "world loaded",
    [("objects", .number l.length), ("channels", .number channels.length)]⟩

theorem loadWorld_eq (w : WorldFile) :
    loadWorld w = (do
      for spec in w.objects do change (·.addWritten spec)
      for spec in w.inOrder do change (·.placeWritten spec)
      furnish w.inOrder w.channels) := by
  have hlength : w.inOrder.length = w.objects.length := List.length_mergeSort _
  simp only [← loadObject_eq, ← placeObject_eq, furnish, hlength]
  rfl

theorem loadWorld_run {w : WorldFile} {σ : Session} {s₁ s₂ : Store}
    (hadd : σ.store.addAll w.objects = .ok s₁) (hplace : s₁.placeAll w.inOrder = .ok s₂) :
    (loadWorld w).run.run σ =
      (furnish w.inOrder w.channels).run.run { σ with store := s₂ } := by
  rw [loadWorld_eq, run_forIn_change hadd]
  exact run_forIn_change (σ := { σ with store := s₁ }) hplace _

/-- A world that was loaded has gone through all phases. -/
theorem phases_of_loadWorld {w : WorldFile} {σ σ' : Session}
    (h : (loadWorld w).run.run σ = (.ok (), σ')) :
    ∃ s₁ s₂, σ.store.addAll w.objects = .ok s₁ ∧ s₁.placeAll w.inOrder = .ok s₂ ∧
      (furnish w.inOrder w.channels).run.run { σ with store := s₂ } = (.ok (), σ') := by
  have hout := congrArg Prod.fst h
  rw [loadWorld_eq] at hout
  obtain ⟨s₁, hadd⟩ := exists_of_forIn_change hout
  rw [run_forIn_change hadd] at hout
  obtain ⟨s₂, hplace⟩ := exists_of_forIn_change (σ := { σ with store := s₁ }) hout
  exact ⟨s₁, s₂, hadd, hplace, (loadWorld_run hadd hplace).symm.trans h⟩

theorem setLock_undisturbed (d : Dbref) (name : Bytes) (code : LockCode) (creator : Dbref)
    (flags : LockFlags) :
    Ensures (Undisturbed s₀) (setLock d name code creator flags) fun _ => Undisturbed s₀ := by
  refine .of_forall fun s h => ?_
  exact (setLock_relocked d name code creator flags).imp (fun _ heq => heq) fun _ _ hs =>
    h.trans hs.undisturbed

theorem loadLock_undisturbed (spec : ObjectSpec) (name : Bytes) (l : LockSpec) :
    Ensures (Undisturbed s₀) (loadLock spec name l) fun _ => Undisturbed s₀ := by
  unfold loadLock
  rcases LockFlags.ofNames l.flags with flag | flags
  · exact .throw fun _ h => h
  · refine .store_bind fun s h => ?_
    dsimp only
    rcases s.compiler.compileLoad l.source name with e | (_ | code)
    · exact .look_bind fun _ => .throw fun _ heq => heq ▸ h
    · exact .pure fun _ heq => heq ▸ h
    · exact .adapt ((setLock_undisturbed _ _ _ _ _).imp (fun _ heq => heq ▸ h) fun _ _ hs => hs)

theorem loadChannel_undisturbed (c : ChannelSpec) :
    Ensures (Undisturbed s₀) (loadChannel c) fun _ => Undisturbed s₀ := by
  refine .ite (fun _ => .throw fun _ h => h) fun _ => .change ?_ fun _ _ h _ => h
  intro s s' h heq
  cases heq
  exact h.trans ⟨.refl _, rfl, rfl⟩

theorem loadLocks_undisturbed (spec : ObjectSpec) :
    Ensures (Undisturbed s₀) (loadLocks spec) fun _ => Undisturbed s₀ := by
  have hloop := Ensures.forIn_keeps
    (fun e : Bytes × LockSpec => @loadLock_undisturbed s₀ spec e.1 e.2)
    (spec.locks.mergeSort fun a b => Bytes.le a.1 b.1)
  exact .bind hloop (fun _ => .pure fun _ h => h) fun _ _ h => h

/-- Locks and channels have nothing to do with places. -/
theorem furnish_undisturbed (l : List ObjectSpec) (channels : List ChannelSpec) :
    Ensures (Undisturbed s₀) (furnish l channels) fun _ => Undisturbed s₀ := by
  refine .bind (.forIn_keeps loadLocks_undisturbed l) (fun _ => ?_) fun _ _ h => h
  refine .bind (.forIn_keeps loadChannel_undisturbed channels) (fun _ => ?_) fun _ _ h => h
  exact .look fun _ _ h => h

theorem Ensures.adapt_ok {ε' : Type} {x : Db ε Unit} {f : ε → ε'} {p' : Store → Prop}
    (h : Ensures p x fun out s => out = .ok () ∧ p' s) :
    Ensures p (ExceptT.adapt f x) fun out s => out = .ok () ∧ p' s := by
  intro σ hp
  obtain ⟨hout, hs⟩ := h σ hp
  refine ⟨?_, hs⟩
  change (x.run.run σ).1.mapError f = .ok ()
  rw [hout]
  rfl

theorem loadLock_succeeds {spec : ObjectSpec} {name : Bytes} {l : LockSpec}
    (hsound : l.Sound s₀.settings.classes name) (hvalid : s₀.isValid spec.id = true)
    (hc : s₀.chunks.compression.Supported) :
    Ensures (Undisturbed s₀) (loadLock spec name l) fun out s =>
      out = .ok () ∧ Undisturbed s₀ s := by
  obtain ⟨⟨flags, hflags⟩, code, hcode, hsize⟩ := hsound
  unfold loadLock
  rw [hflags]
  refine .store_bind fun s h => ?_
  have hcompile : s.compiler.compileLoad l.source name = .ok code := by
    rw [← hcode, ← h.settings]
    rfl
  dsimp only
  rw [hcompile]
  rcases code with _ | code
  · exact .pure fun _ heq => ⟨rfl, heq ▸ h⟩
  · rw [← h.same.alike.isValid, isValid, Bool.and_eq_true, Bool.not_eq_true'] at hvalid
    obtain ⟨o, ho⟩ := Option.isSome_iff_exists.1 hvalid.2
    refine .adapt_ok
      ((setLock_withLock hvalid.1 ho (h.compression ▸ hc) hsize _ flags).imp
        (fun _ heq => heq) ?_)
    rintro _ _ ⟨hout, p, -, rfl⟩
    exact ⟨hout, h.trans (Relocked.put ho p).undisturbed⟩

theorem loadLocks_succeeds {spec : ObjectSpec}
    (hsound : ∀ e ∈ spec.locks, e.2.Sound s₀.settings.classes e.1)
    (hvalid : s₀.isValid spec.id = true) (hc : s₀.chunks.compression.Supported) :
    Ensures (Undisturbed s₀) (loadLocks spec) fun out s => out = .ok () ∧ Undisturbed s₀ s := by
  have hloop :=
    Ensures.forIn_succeeds fun e (he : e ∈ spec.locks.mergeSort fun a b => Bytes.le a.1 b.1) =>
    loadLock_succeeds (hsound e (List.mem_mergeSort.1 he)) hvalid hc
  exact .bind_ok hloop (.pure fun _ h => ⟨rfl, h⟩)

theorem loadChannel_succeeds {c : ChannelSpec} (hname : c.name ≠ []) :
    Ensures (Undisturbed s₀) (loadChannel c) fun out s => out = .ok () ∧ Undisturbed s₀ s := by
  refine .ite (fun hempty => absurd (List.isEmpty_iff.1 hempty) hname) fun _ => .change ?_ ?_
  · intro s s' h heq
    cases heq
    exact ⟨rfl, h.trans ⟨.refl _, rfl, rfl⟩⟩
  · intro s e _ heq
    cases heq

/-- Sound locks are set and named channels are added without fail. -/
theorem furnish_succeeds {l : List ObjectSpec} {channels : List ChannelSpec}
    (hsound : ∀ spec ∈ l, ∀ e ∈ spec.locks, e.2.Sound s₀.settings.classes e.1)
    (hvalid : ∀ spec ∈ l, s₀.isValid spec.id = true) (hc : s₀.chunks.compression.Supported)
    (hnames : ∀ c ∈ channels, c.name ≠ []) :
    Ensures (Undisturbed s₀) (furnish l channels) fun out _ => out = .ok () := by
  refine .bind_ok
    (.forIn_succeeds fun spec hspec =>
      loadLocks_succeeds (hsound spec hspec) (hvalid spec hspec) hc) ?_
  refine .bind_ok (.forIn_succeeds fun c hmem => loadChannel_succeeds (hnames c hmem)) ?_
  exact .look fun _ _ _ => rfl

end Db
end Database
end Locksmith
