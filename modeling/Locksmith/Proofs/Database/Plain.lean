import Locksmith.Proofs.Database.Phases

namespace Locksmith

/-- An object without its attributes. -/
def Object.plain (o : Object) : Object := { o with attributes := .empty }

namespace Database

def Slot.plain : Slot → Slot
  | .live o => .live o.plain
  | .retired => .retired

namespace ObjectSpec

variable {spec : ObjectSpec}

def plain (spec : ObjectSpec) : ObjectSpec := { spec with attributes := [] }

theorem build_plain (hknown : ∀ e ∈ spec.attributes, e.2.Known) :
    spec.plain.build = spec.build.map Object.plain := by
  rw [build_eq_bind spec]
  change spec.frame = _
  rcases hframe : spec.frame with e | base
  · rfl
  · obtain ⟨o, hfold, hsame, -⟩ := exists_addAttributes hknown base
    change _ = Except.map Object.plain (spec.attributes.foldlM _ base)
    rw [hfold, Except.map, hsame]
    exact congrArg (fun attributes => Except.ok { base with attributes })
      (frame_spec hframe).2.2

/-- The attributes of an object are written in another order. -/
def Reordered (spec spec' : ObjectSpec) : Prop :=
  ∃ attributes : List (Bytes × AttributeSpec),
    attributes.Perm spec.attributes ∧ spec' = { spec with attributes }

namespace Reordered

variable {spec' : ObjectSpec}

theorem refl (spec : ObjectSpec) : spec.Reordered spec := ⟨spec.attributes, .refl _, rfl⟩

theorem symm (h : spec.Reordered spec') : spec'.Reordered spec := by
  obtain ⟨attributes, hperm, rfl⟩ := h
  exact ⟨spec.attributes, hperm.symm, rfl⟩

theorem plain (h : spec.Reordered spec') : spec.plain = spec'.plain := by
  obtain ⟨attributes, -, rfl⟩ := h
  rfl

theorem known (h : spec.Reordered spec') (hknown : ∀ e ∈ spec.attributes, e.2.Known) :
    ∀ e ∈ spec'.attributes, e.2.Known := by
  obtain ⟨attributes, hperm, rfl⟩ := h
  exact fun e he => hknown e (hperm.mem_iff.1 he)

theorem build (h : spec.Reordered spec') (hunambiguous : spec.Unambiguous) {o : Object}
    (hbuild : spec.build = .ok o) : spec'.build = .ok o := by
  obtain ⟨attributes, hperm, rfl⟩ := h
  exact (forall_build_iff hbuild).2 hunambiguous attributes hperm

end Reordered
end ObjectSpec

namespace Store

variable (s : Store) {spec : ObjectSpec}

def plain : Store := { s with slots := s.slots.mapValues Slot.plain }

theorem get?_plain (d : Dbref) : s.plain.get? d = (s.get? d).map Object.plain := by
  rw [get?, get?, plain, SortedMap.get?_mapValues]
  rcases s.slots.get? d with _ | _ | _
  · rfl
  · rfl
  · rfl

theorem isValid_plain (d : Dbref) : s.plain.isValid d = s.isValid d := by
  rw [isValid, isValid, get?_plain, Option.isSome_map]

theorem owner_plain (d : Dbref) : s.plain.owner d = s.owner d := by
  rw [owner, owner, get?_plain, Option.map_map]
  rfl

theorem insert_plain (d : Dbref) (o : Object) :
    { s with slots := s.slots.insert d (.live o) }.plain =
      { s.plain with slots := s.plain.slots.insert d (.live o.plain) } := by
  simp only [plain, SortedMap.mapValues_insert, Slot.plain]

theorem modify_plain (d : Dbref) {f : Object → Object} (h : ∀ o, (f o).plain = f o.plain) :
    s.plain.modify d f = (s.modify d f).plain := by
  rw [modify, modify, get?_plain]
  rcases s.get? d with _ | o
  · rfl
  · dsimp only [Option.map_some]
    rw [insert_plain, h]

theorem releaseChunk_plain (r : ChunkRef) :
    s.plain.releaseChunk r = (s.releaseChunk r).plain := by
  by_cases hr : r.isZero = true
  · rw [releaseChunk, if_pos hr, releaseChunk, if_pos hr]
  · rw [Bool.not_eq_true] at hr
    rw [releaseChunk_eq _ hr, releaseChunk_eq _ hr]
    rfl

theorem add_plain (o : Object) : s.plain.add o.plain = (s.add o).map plain := by
  have hcontains : s.plain.slots.contains o.id = s.slots.contains o.id := by
    rw [SortedMap.contains, SortedMap.contains, plain, SortedMap.get?_mapValues,
      Option.isSome_map]
  unfold add
  change (if o.id.isSentinel then _ else if s.plain.slots.contains o.id then _ else _) = _
  rw [hcontains]
  split
  · rfl
  · split
    · rfl
    · exact congrArg Except.ok (s.insert_plain o.id o).symm

theorem addWritten_plain (hknown : ∀ e ∈ spec.attributes, e.2.Known) :
    s.plain.addWritten spec.plain = (s.addWritten spec).map plain := by
  unfold addWritten
  rw [ObjectSpec.build_plain hknown]
  rcases spec.build with e | o
  · rfl
  · change (s.plain.add o.plain).mapError _ = ((s.add o).mapError _).map plain
    rw [add_plain]
    rcases s.add o with e | s'
    · rfl
    · rfl

theorem meets_plain (d : Dbref) (fuel : Nat) (loc : Dbref) :
    s.plain.meets d fuel loc = s.meets d fuel loc := by
  induction fuel generalizing loc with
  | zero => rfl
  | succ fuel ih =>
    rw [meets, meets, get?_plain]
    rcases s.get? loc with _ | o
    · rfl
    · dsimp only [Option.map_some]
      rw [ih]
      rfl

theorem move_plain (d dest : Dbref) : s.plain.move d dest = (s.move d dest).map plain := by
  have hsize : s.plain.slots.size = s.slots.size := List.length_map _
  unfold move
  rw [get?_plain, get?_plain, meets_plain, hsize, Option.isNone_map]
  rcases s.get? d with _ | o
  · rfl
  · dsimp only [Option.map_some]
    split
    · rfl
    · split
      · rfl
      · change Except.ok (((s.plain.modify o.location _).modify d _).modify dest _) = _
        rw [modify_plain _ o.location (f := (·.dropItem d)) fun _ => rfl,
          modify_plain _ d (f := ({ · with location := dest })) fun _ => rfl,
          modify_plain _ dest (f := (·.addItem d)) fun _ => rfl]
        rfl

theorem placeWritten_plain :
    s.plain.placeWritten spec.plain = (s.placeWritten spec).map plain := by
  unfold placeWritten
  change (if spec.place = .nothing then _ else
    (s.plain.move spec.id spec.place).mapError _) = _
  rw [move_plain]
  split
  · rfl
  · rcases s.move spec.id spec.place with _ | _
    · rfl
    · rfl

end Store

def Session.plain (σ : Session) : Session := { σ with store := σ.store.plain }

namespace Db

variable {ε ε' α β γ δ : Type}

/-- Without attributes, `y` does what `x` does with them. -/
def Parallel (x y : Db ε α) : Prop :=
  ∀ σ, y.run.run σ.plain = ((x.run.run σ).1, (x.run.run σ).2.plain)

namespace Parallel

variable {x y : Db ε α}

theorem pure (a : α) : Parallel (pure a : Db ε α) (pure a) := fun _ => rfl

theorem throw (e : ε) : Parallel (throw e : Db ε α) (throw e) := fun _ => rfl

theorem bind {f g : α → Db ε β} (hx : Parallel x y) (hf : ∀ a, Parallel (f a) (g a)) :
    Parallel (x >>= f) (y >>= g) := by
  intro σ
  change (ExceptT.bindCont g (y.run.run σ.plain).1 (y.run.run σ.plain).2) = _
  rw [hx σ]
  change _ = ((ExceptT.bindCont f (x.run.run σ).1 (x.run.run σ).2).1,
    (ExceptT.bindCont f (x.run.run σ).1 (x.run.run σ).2).2.plain)
  rcases (x.run.run σ).1 with e | a
  · rfl
  · exact hf a _

theorem store_bind {f g : Store → Db ε α} (h : ∀ s, Parallel (f s) (g s.plain)) :
    Parallel (store >>= f) (store >>= g) := fun σ => h σ.store σ

theorem putStore (s : Store) : Parallel (putStore s : Db ε Unit) (putStore s.plain) :=
  fun _ => rfl

theorem look {f g : Store → Journaled α} (h : ∀ s, g s.plain = f s) :
    Parallel (look f : Db ε α) (look g) := by
  intro σ
  exact congrArg (fun work : Journaled α =>
    (Except.ok (work σ.journal).1, (⟨σ.store.plain, (work σ.journal).2⟩ : Session))) (h σ.store)

theorem adapt (h : Parallel x y) (f : ε → ε') :
    Parallel (ExceptT.adapt f x) (ExceptT.adapt f y) := by
  intro σ
  exact congrArg (fun out => (out.1.mapError f, out.2)) (h σ)

theorem forIn {f : γ → Db ε Unit} {g : δ → Db ε Unit} {φ : γ → δ} {l : List γ}
    (h : ∀ a ∈ l, Parallel (f a) (g (φ a))) :
    Parallel (ForIn.forIn l PUnit.unit fun a _ => do f a; return .yield PUnit.unit)
      (ForIn.forIn (l.map φ) PUnit.unit fun b _ => do g b; return .yield PUnit.unit) := by
  induction l with
  | nil => exact .pure _
  | cons a rest ih =>
    obtain ⟨hfirst, hrest⟩ := List.forall_mem_cons.1 h
    rw [List.map_cons, List.forIn_cons, List.forIn_cons]
    simp only [bind_assoc, pure_bind]
    exact .bind hfirst fun _ => ih hrest

theorem step {f g : Store → Except ε (α × Store)}
    (h : ∀ s, g s.plain = (f s).map fun out => (out.1, out.2.plain)) :
    Parallel (step f) (step g) := by
  refine .store_bind fun s => ?_
  rw [h]
  rcases f s with e | ⟨a, s'⟩
  · exact .throw e
  · exact .bind (.putStore s') fun _ => .pure a

theorem change {f g : Store → Except ε Store} (h : ∀ s, g s.plain = (f s).map Store.plain) :
    Parallel (change f) (change g) := by
  refine .store_bind fun s => ?_
  rw [h]
  rcases f s with e | s'
  · exact .throw e
  · exact .putStore s'

end Parallel

theorem release_parallel (l : LockRecord) : Parallel (release l) (release l) := by
  refine .store_bind fun s => ?_
  rw [s.releaseChunk_plain]
  exact .putStore _

theorem freeLock_parallel (d : Dbref) (name : Bytes) :
    Parallel (freeLock d name) (freeLock d name) := by
  refine .bind (.step fun s => ?_) fun old => ?_
  · unfold Store.takeLock
    rw [s.get?_plain]
    rcases s.get? d with _ | o
    · rfl
    · exact congrArg (fun s' => Except.ok (o.lock? name, s')) (s.modify_plain d fun _ => rfl)
  · cases old with
    | none => exact .pure ()
    | some l => exact .bind (.look fun _ => rfl) fun _ => release_parallel l

theorem replaceLock_parallel (d : Dbref) (l : LockRecord) {announce : Db Error Unit}
    (h : Parallel announce announce) :
    Parallel (replaceLock d l announce) (replaceLock d l announce) := by
  refine .store_bind fun s => ?_
  have hinstall : s.plain.installLock d l =
      (s.installLock d l).map fun out => (out.1, out.2.plain) := by
    unfold Store.installLock
    rw [s.get?_plain]
    rcases s.get? d with _ | o
    · rfl
    · exact congrArg (fun s' => Except.ok (o.lock? l.name, s')) (s.modify_plain d fun _ => rfl)
  rw [hinstall]
  rcases s.installLock d l with e | ⟨old, s'⟩
  · exact .bind (release_parallel l) fun _ => .throw e
  · refine .bind (.putStore s') fun _ => .bind h fun _ => ?_
    cases old with
    | none => exact .pure ()
    | some old => exact release_parallel old

theorem setLock_parallel (d : Dbref) (name : Bytes) (code : LockCode) (creator : Dbref)
    (flags : LockFlags) :
    Parallel (setLock d name code creator flags) (setLock d name code creator flags) := by
  refine .store_bind fun s => ?_
  rw [s.isValid_plain]
  cases s.isValid d with
  | false => exact .throw _
  | true =>
    cases code with
    | none => exact freeLock_parallel d _
    | some code =>
      refine .bind (.step fun s => ?_) fun ref => ?_
      · unfold Store.keepCode
        change Except.mapError _ ((s.chunks.create (some code)).map fun out =>
          (out.1, { s.plain with chunks := out.2 })) = _
        rcases s.chunks.create (some code) with _ | _
        · rfl
        · rfl
      · exact replaceLock_parallel d _ (.bind (.look fun _ => rfl) fun _ => .look fun _ => rfl)

theorem loadLock_parallel (spec : ObjectSpec) (name : Bytes) (l : LockSpec) :
    Parallel (loadLock spec name l) (loadLock spec.plain name l) := by
  unfold loadLock
  rcases LockFlags.ofNames l.flags with flag | flags
  · exact .throw _
  · refine .store_bind fun s => ?_
    -- No object is looked for when a world is loaded.
    have hcompile (s : Store) : s.compiler.compileLoad l.source name =
        (⟨s.settings.classes, none⟩ : Lock.Compiler).compileLoad l.source name := rfl
    have hplain : s.plain.compiler.compileLoad l.source name =
        (⟨s.settings.classes, none⟩ : Lock.Compiler).compileLoad l.source name :=
      hcompile s.plain
    dsimp only
    rw [hcompile, hplain, s.owner_plain]
    rcases Lock.Compiler.compileLoad _ l.source name with e | (_ | code)
    · exact .bind (.look fun _ => rfl) fun _ => .throw _
    · exact .pure ()
    · exact .adapt (setLock_parallel _ _ _ _ _) _

theorem loadLocks_parallel (spec : ObjectSpec) :
    Parallel (loadLocks spec) (loadLocks spec.plain) := by
  have hloop := Parallel.forIn (φ := id) (g := fun e => loadLock spec.plain e.1 e.2)
    fun e (_ : e ∈ spec.locks.mergeSort fun a b => Bytes.le a.1 b.1) =>
      loadLock_parallel spec e.1 e.2
  rw [List.map_id] at hloop
  exact .bind hloop fun _ => .pure ()

theorem loadChannel_parallel (c : ChannelSpec) : Parallel (loadChannel c) (loadChannel c) := by
  unfold loadChannel
  split
  · exact .throw _
  · exact .change fun _ => rfl

theorem furnish_parallel (l : List ObjectSpec) (channels : List ChannelSpec) :
    Parallel (furnish l channels) (furnish (l.map ObjectSpec.plain) channels) := by
  have hchannels := Parallel.forIn (φ := id) (g := loadChannel)
    fun c (_ : c ∈ channels) => loadChannel_parallel c
  rw [List.map_id] at hchannels
  unfold furnish
  rw [List.length_map]
  exact .bind (.forIn fun spec _ => loadLocks_parallel spec) fun _ => .bind hchannels fun _ =>
    .look fun _ => rfl

end Db

theorem WorldFile.inOrder_plain (objects : List ObjectSpec) (channels : List ChannelSpec) :
    inOrder ⟨objects.map ObjectSpec.plain, channels⟩ =
      (inOrder ⟨objects, channels⟩).map ObjectSpec.plain := by
  rw [inOrder, inOrder, List.map_mergeSort]
  exact fun _ _ _ _ => rfl

/-- Attributes play no part in loading a world, if their flags are known. -/
theorem Db.loadWorld_parallel {objects : List ObjectSpec}
    (hknown : ∀ spec ∈ objects, ∀ e ∈ spec.attributes, e.2.Known)
    (channels : List ChannelSpec) :
    Parallel (loadWorld ⟨objects, channels⟩)
      (loadWorld ⟨objects.map ObjectSpec.plain, channels⟩) := by
  rw [loadWorld_eq, loadWorld_eq, WorldFile.inOrder_plain]
  refine .bind (.forIn fun spec hspec => ?_) fun _ =>
    .bind (.forIn fun spec _ => ?_) fun _ => ?_
  · exact .change fun s => s.addWritten_plain (hknown spec hspec)
  · exact .change fun s => s.placeWritten_plain
  · exact furnish_parallel _ channels

/-- A loop does the same over lists whose items differ in nothing that it needs. -/
theorem Db.forIn_eq_of_map {ε γ δ : Type} {f : γ → Db ε Unit} {φ : γ → δ}
    (hf : ∀ a b, φ a = φ b → f a = f b) {l l' : List γ} (h : l.map φ = l'.map φ) :
    (ForIn.forIn l PUnit.unit fun a _ => do f a; return .yield PUnit.unit : Db ε PUnit) =
      ForIn.forIn l' PUnit.unit fun a _ => do f a; return .yield PUnit.unit := by
  induction l generalizing l' with
  | nil =>
    cases List.map_eq_nil_iff.1 h.symm
    rfl
  | cons a rest ih =>
    obtain ⟨b, rest', rfl, hb, hrest⟩ := List.map_eq_cons_iff.1 h.symm
    rw [List.forIn_cons, List.forIn_cons, hf a b hb.symm]
    simp only [bind_assoc, pure_bind]
    exact bind_congr fun _ => ih hrest.symm

/-- Of the attributes of its objects, a world needs only that they can be built with them. -/
theorem Db.loadWorld_congr {l l' : List ObjectSpec}
    (hbuild : l.map ObjectSpec.build = l'.map ObjectSpec.build)
    (hplain : l.map ObjectSpec.plain = l'.map ObjectSpec.plain) (channels : List ChannelSpec) :
    loadWorld ⟨l, channels⟩ = loadWorld ⟨l', channels⟩ := by
  have hadd (a b : ObjectSpec) (h : a.build = b.build) :
      (change (·.addWritten a) : Db LoadError Unit) = change (·.addWritten b) := by
    congr 1
    funext s
    rw [Store.addWritten, Store.addWritten, h]
  have horder : (WorldFile.inOrder ⟨l, channels⟩).map ObjectSpec.plain =
      (WorldFile.inOrder ⟨l', channels⟩).map ObjectSpec.plain := by
    rw [← WorldFile.inOrder_plain, ← WorldFile.inOrder_plain, hplain]
  have hplace (a b : ObjectSpec) (h : a.plain = b.plain) :
      (change (·.placeWritten a) : Db LoadError Unit) = change (·.placeWritten b) := by
    change (change (·.placeWritten a.plain) : Db LoadError Unit) = _
    rw [h]
    rfl
  have hlocks (a b : ObjectSpec) (h : a.plain = b.plain) : loadLocks a = loadLocks b := by
    change loadLocks a.plain = _
    rw [h]
    rfl
  have hlength := congrArg List.length horder
  rw [List.length_map, List.length_map] at hlength
  rw [loadWorld_eq, loadWorld_eq, furnish, furnish, forIn_eq_of_map hadd hbuild,
    forIn_eq_of_map hplace horder, forIn_eq_of_map hlocks horder, hlength]

end Database
end Locksmith
