import Locksmith.Proofs.Database.Spelling
import Locksmith.Proofs.Lock.DefaultNames

namespace Locksmith

theorem Bytes.toLower_eq_nil {s : Bytes} : s.toLower = [] ↔ s = [] := by
  constructor
  · intro h
    rcases s with _ | ⟨b, r⟩
    · rfl
    · rw [toLower, Utf8.mapChars, Utf8.decode_cons, List.flatMap_cons,
        List.append_eq_nil_iff] at h
      exact absurd h.1 String.utf8EncodeChar_ne_nil
  · rintro rfl
    rfl

namespace Database

/-- Two names of one lock: they differ in case at most, and no name is the name of the default
lock. -/
def SameLock (m n : Bytes) : Prop := (lockName m).toLower = (lockName n).toLower

instance (m n : Bytes) : Decidable (SameLock m n) := inferInstanceAs (Decidable (_ = _))

namespace SameLock

variable {m n : Bytes}

theorem toLower (h : SameLock m n) (hempty : m = [] ↔ n = []) : m.toLower = n.toLower := by
  by_cases hm : m = []
  · rw [hm, hempty.1 hm]
  · have hn : n ≠ [] := fun hn => hm (hempty.2 hn)
    rwa [SameLock, lockName_of_ne_nil hm, lockName_of_ne_nil hn] at h

theorem lockNames (h : SameLock m n) : SameLock (lockName m) (lockName n) := by
  rwa [SameLock, Store.lockName_idem, Store.lockName_idem]

end SameLock

namespace Store

variable {m n : Bytes}

/-- A lock that is not set cannot be taken away. -/
theorem withoutLock_of_lock? {s : Store} {d : Dbref} {o : Object} (ho : s.get? d = some o)
    (hm : o.lock? m = none) : s.withoutLock d o m = s := by
  have hdrop : o.dropLock m = o := by
    rw [Object.dropLock, SortedMap.erase_of_get? hm]
  have hslot : s.slots.get? d = some (.live o) := by
    rw [get?] at ho
    rcases hslot : s.slots.get? d with _ | o' | _
    · rw [hslot] at ho
      cases ho
    · rw [hslot] at ho
      cases ho
      rfl
    · rw [hslot] at ho
      cases ho
  rw [withoutLock, hm, forget, modify, ho]
  dsimp only
  rw [hdrop, SortedMap.insert_of_get? hslot]

theorem canReadLock_congr (h : m.toLower = n.toLower) (s : Store) (viewer d : Dbref) :
    s.canReadLock viewer d m = s.canReadLock viewer d n := by
  simp only [canReadLock, Object.lock?, h]

theorem canSetLock_congr (h : m.toLower = n.toLower) (s : Store) (who d : Dbref) :
    s.canSetLock who d m = s.canSetLock who d n := by
  simp only [canSetLock, Object.lock?, h]

end Store

namespace Db

open Store

variable {α β : Type} {s t t' : Store} {σ : Session} {d player : Dbref} {m n source : Bytes}
  {flags : LockFlags} {x y : Db Error α} {r r' : Except Error α} {view : Store → Store}

/-- On a database, work has an outcome and leaves another one. -/
def Ends (s : Store) (x : Db Error α) (r : Except Error α) (t : Store) : Prop :=
  Ensures (· = s) x fun out s' => out = r ∧ s' = t

namespace Ends

theorem throw (s : Store) (e : Error) :
    Ends s (MonadExcept.throw e : Db Error α) (.error e) s :=
  Ensures.throw fun _ h => ⟨rfl, h⟩

theorem look {f : Store → Journaled α} {a : α} (h : f s = pure a) :
    Ends s (Db.look f) (.ok a) s := by
  rintro σ rfl
  change Except.ok (f σ.store σ.journal).1 = .ok a ∧ σ.store = σ.store
  rw [h]
  exact ⟨rfl, rfl⟩

theorem map (h : Ends s x r t) (f : α → β) : Ends s (f <$> x) (r.map f) t := by
  intro σ hσ
  obtain ⟨hout, hstore⟩ := h σ hσ
  have hrun : (f <$> x).run.run σ = ((x.run.run σ).1.map f, (x.run.run σ).2) := by
    rw [ExceptT.run_map]
    rfl
  rw [hrun, hout, hstore]
  exact ⟨rfl, rfl⟩

/-- Work that goes on if it did not fail. -/
theorem bind {f : α → Db Error β} {g : α → β} (h : Ends s x r t)
    (hf : ∀ a, Ends t (f a) (.ok (g a)) t) : Ends s (x >>= f) (r.map g) t := by
  refine Ensures.bind h (fun a => .of_forall ?_) ?_
  · rintro s' ⟨rfl, rfl⟩
    exact hf a
  · rintro e s' ⟨rfl, rfl⟩
    exact ⟨rfl, rfl⟩

end Ends

/-- On a database, two pieces of work have the same outcome, with no telling how locks are named
in errors, and leave databases that look the same. -/
def Agree (view : Store → Store) (s : Store) (x y : Db Error α) : Prop :=
  ∃ r r' t t', Ends s x r t ∧ Ends s y r' t' ∧
    r.mapError Error.unnamed = r'.mapError Error.unnamed ∧ view t = view t'

theorem Ends.agree (hx : Ends s x r t) (hy : Ends s y r' t')
    (hr : r.mapError Error.unnamed = r'.mapError Error.unnamed) (ht : view t = view t') :
    Agree view s x y :=
  ⟨r, r', t, t', hx, hy, hr, ht⟩

/-- Setting a lock under two names of it. -/
theorem setLock_spelled (h : SameLock m n) (s : Store) (d : Dbref) (code : LockCode)
    (creator : Dbref) (flags : LockFlags) :
    Agree lowered s (setLock d m code creator flags) (setLock d n code creator flags) := by
  by_cases hvalid : s.isValid d = true
  · obtain ⟨o, ho⟩ := get?_of_isValid hvalid
    cases code with
    | none =>
      have hsame := congrArg lowered (withoutLock_congr h s d o)
      exact Ends.agree (setLock_open hvalid ho creator flags)
        (setLock_open hvalid ho creator flags) rfl hsame
    | some code =>
      rcases hcreate : s.chunks.create (some code) with e | c
      · exact Ends.agree (setLock_of_create hvalid hcreate creator flags)
          (setLock_of_create hvalid hcreate creator flags) rfl rfl
      · obtain ⟨p, -, rfl⟩ := Chunk.Store.append_of_create hcreate
        have hsentinel : d.isSentinel = false := by
          simpa using (Bool.and_eq_true_iff.1 hvalid).1
        have hsame := lowered_withLock h s d o creator flags p
        exact Ends.agree (setLock_of_append hsentinel ho hcreate creator flags)
          (setLock_of_append hsentinel ho hcreate creator flags) rfl hsame
  · rw [Bool.not_eq_true] at hvalid
    exact Ends.agree (setLock_absent hvalid code creator flags)
      (setLock_absent hvalid code creator flags) rfl rfl

/-- Setting a lock under two names of it, with codes that differ but fit into chunks. -/
theorem setLock_recoded (h : SameLock m n) (s : Store) (d : Dbref) {code code' : Bytes}
    (hcode : code.length ≤ maxChunkSize) (hcode' : code'.length ≤ maxChunkSize)
    (creator : Dbref) (flags : LockFlags) :
    Agree s.recoded s (setLock d m (some code) creator flags)
      (setLock d n (some code') creator flags) := by
  by_cases hvalid : s.isValid d = true
  · by_cases hc : s.chunks.compression.Supported
    · have hkept {code : Bytes} (hcode : code.length ≤ maxChunkSize) :
          ∃ p, s.chunks.create (some code) = .ok (s.chunks.append p) := by
        have hcreate := Chunk.Store.create_supported hc (some code)
        rw [Option.getD_some, if_neg (Nat.not_lt.2 hcode)] at hcreate
        obtain ⟨x, hx⟩ := hcreate
        obtain ⟨p, -, rfl⟩ := Chunk.Store.append_of_create hx
        exact ⟨p, hx⟩
      obtain ⟨o, ho⟩ := get?_of_isValid hvalid
      have hsentinel : d.isSentinel = false := by simpa using (Bool.and_eq_true_iff.1 hvalid).1
      obtain ⟨p, hp⟩ := hkept hcode
      obtain ⟨p', hp'⟩ := hkept hcode'
      -- both codes are kept under the next reference, which is left out of account
      apply Ends.agree (setLock_of_append hsentinel ho hp creator flags)
        (setLock_of_append hsentinel ho hp' creator flags) rfl
      rw [recoded, recoded, s.without_withLock d o _ creator flags p p']
      exact congrArg (·.without s.chunks.next) (lowered_withLock h s d o creator flags p')
    · have hfails {code : Bytes} (hcode : code.length ≤ maxChunkSize) :
          s.chunks.create (some code) =
            .error (.packing (.unsupported s.chunks.compression)) := by
        obtain ⟨e, he, hlong | hunknown⟩ := create_fails fun hfits => hc hfits.1
        · exact absurd hlong.1 (Nat.not_lt.2 hcode)
        · rw [he, hunknown.2]
      exact Ends.agree (setLock_of_create hvalid (hfails hcode) creator flags)
        (setLock_of_create hvalid (hfails hcode') creator flags) rfl rfl
  · rw [Bool.not_eq_true] at hvalid
    exact Ends.agree (setLock_absent hvalid _ creator flags)
      (setLock_absent hvalid _ creator flags) rfl rfl

theorem setLockSource_forbidden (h : s.canSetLock player d (lockName m) = false)
    (source : Bytes) (flags : LockFlags) :
    Ends s (setLockSource player d m source flags) (.error .permission) s := by
  refine .store_bind ?_
  rintro _ rfl
  refine .ite (fun _ => Ends.throw _ _) fun hcan => ?_
  rw [h] at hcan
  exact absurd rfl hcan

theorem setLockSource_uncompiled {e : CompileError}
    (hcan : s.canSetLock player d (lockName m) = true)
    (he : s.compiler.compile source player (lockName m) = .error e) (flags : LockFlags) :
    Ends s (setLockSource player d m source flags) (.error (.compiling (lockName m) e)) s := by
  refine .store_bind ?_
  rintro _ rfl
  refine .ite (fun hcannot => ?_) fun _ => ?_
  · rw [hcan] at hcannot
    cases hcannot
  · rw [he]
    exact Ends.throw _ _

theorem setLockSource_compiled {code : LockCode} {r : Except Error Unit}
    (hcan : s.canSetLock player d (lockName m) = true)
    (hcode : s.compiler.compile source player (lockName m) = .ok code)
    (hset : Ends s (setLock d (lockName m) code player flags) r t) :
    Ends s (setLockSource player d m source flags)
      (r.map fun _ => t.warnings code d (lockName m)) t := by
  refine .store_bind ?_
  rintro _ rfl
  refine .ite (fun hcannot => ?_) fun _ => ?_
  · rw [hcan] at hcannot
    cases hcannot
  · rw [hcode]
    exact hset.bind fun _ => .look (t.check_eq_warnings code d (lockName m))

/-- Setting a lock from its text under two names of it does the same as setting the codes of the
text, if only that much is asked of the warnings as the databases agree on. -/
theorem setLockSource_agree {code code' : LockCode} {f : List Warning → β} (h : SameLock m n)
    (hm : s.compiler.compile source player (lockName m) = .ok code)
    (hn : s.compiler.compile source player (lockName n) = .ok code')
    (hset :
      Agree view s (setLock d (lockName m) code player flags)
        (setLock d (lockName n) code' player flags))
    (hf : ∀ t t', view t = view t' →
      f (t.warnings code d (lockName m)) = f (t'.warnings code' d (lockName n))) :
    Agree view s (f <$> setLockSource player d m source flags)
      (f <$> setLockSource player d n source flags) := by
  have hcan := s.canSetLock_congr h player d
  rcases hplayer : s.canSetLock player d (lockName m) with _ | _
  · exact ((setLockSource_forbidden hplayer source flags).map f).agree
      ((setLockSource_forbidden (hcan.symm.trans hplayer) source flags).map f) rfl rfl
  · obtain ⟨r, r', t, t', hends, hends', hr, ht⟩ := hset
    refine ((setLockSource_compiled hplayer hm hends).map f).agree
      ((setLockSource_compiled (hcan.symm.trans hplayer) hn hends').map f) ?_ ht
    rcases r with e | _
    · rcases r' with e' | _
      · exact congrArg Except.error (Except.error.inj hr)
      · cases hr
    · rcases r' with e' | _
      · cases hr
      · exact congrArg Except.ok (hf t t' ht)

/-- Setting a lock from a text that means the same under both names. -/
theorem setLockSource_spelled (h : SameLock m n)
    (hsame : s.compiler.compile source player (lockName m) =
      s.compiler.compile source player (lockName n)) :
    Agree lowered s (List.map Warning.unnamed <$> setLockSource player d m source flags)
      (List.map Warning.unnamed <$> setLockSource player d n source flags) := by
  rcases hcode : s.compiler.compile source player (lockName m) with e | code
  · have hcan := s.canSetLock_congr h player d
    rcases hplayer : s.canSetLock player d (lockName m) with _ | _
    · exact ((setLockSource_forbidden hplayer source flags).map _).agree
        ((setLockSource_forbidden (hcan.symm.trans hplayer) source flags).map _) rfl rfl
    · exact ((setLockSource_uncompiled hplayer hcode flags).map _).agree
        ((setLockSource_uncompiled (hcan.symm.trans hplayer) (hsame.symm.trans hcode) flags).map
          _) rfl rfl
  · exact setLockSource_agree h hcode (hsame.symm.trans hcode)
      (setLock_spelled h.lockNames s d code player flags)
      fun _ _ ht => warnings_unnamed ht code d _ _

theorem freeLock_congr (h : m.toLower = n.toLower) (d : Dbref) :
    freeLock d m = freeLock d n := by
  simp only [freeLock, takeLock, Object.lock?, Object.dropLock, h]

theorem freeLock_absent (hnone : s.get? d = none) (name : Bytes) :
    Ends s (freeLock d name) (.error (.noObject d)) s := by
  refine Ensures.bind (r := fun out s' => out = .error (.noObject d) ∧ s' = s)
    (.step ?_ ?_) ?_ ?_
  · rintro _ old s' rfl hstep
    rw [takeLock, hnone] at hstep
    cases hstep
  · rintro _ e rfl hstep
    rw [takeLock, hnone] at hstep
    cases hstep
    exact ⟨rfl, rfl⟩
  · intro old
    apply Ensures.of_forall
    rintro s' ⟨hout, -⟩
    cases hout
  · rintro e s' ⟨hout, rfl⟩
    cases hout
    exact ⟨rfl, rfl⟩

theorem lintLock_eq (s : Store) (d : Dbref) (name : Bytes) :
    Ends s (lintLock d name)
      ((s.findLock d (lockName name)).code.map fun code => s.warnings code d (lockName name))
      s := by
  refine .store_bind ?_
  rintro s rfl
  rcases (s.findLock d (lockName name)).code with e | code
  · exact Ends.throw s e
  · exact Ends.look (s.check_eq_warnings code d (lockName name))

end Db

/-- On an object, two names do the same but for how a name is spelled in records, warnings and
errors, and in code that is made from a text. What takes the name as it is does so if both or
neither of them are empty. -/
structure Interchangeable (s : Store) (d : Dbref) (m n : Bytes) : Prop where
  found : s.findLock d m = s.findLock d n
  shown : ∀ viewer mode, s.showLock viewer d m mode = s.showLock viewer d n mode
  checked : ∀ subject journal,
    (s.checkLock subject d m journal).1 = (s.checkLock subject d n journal).1
  linted : Db.Agree Store.lowered s (List.map Warning.unnamed <$> Db.lintLock d m)
    (List.map Warning.unnamed <$> Db.lintLock d n)
  set : ∀ code creator flags,
    Db.Agree Store.lowered s (Db.setLock d m code creator flags)
      (Db.setLock d n code creator flags)
  compiled : ∀ player source, Lock.SameCode (lockName m) (lockName n)
    (s.compiler.compile source player (lockName m))
    (s.compiler.compile source player (lockName n))
  source : ∀ player source flags,
    s.compiler.compile source player (lockName m) =
      s.compiler.compile source player (lockName n) →
      Db.Agree Store.lowered s
        (List.map Warning.unnamed <$> Db.setLockSource player d m source flags)
        (List.map Warning.unnamed <$> Db.setLockSource player d n source flags)
  recoded : ∀ player source flags code code',
    s.compiler.compile source player (lockName m) = .ok (some code) →
      s.compiler.compile source player (lockName n) = .ok (some code') →
      code.length ≤ maxChunkSize → code'.length ≤ maxChunkSize →
      Db.Agree s.recoded s ((fun _ => ()) <$> Db.setLockSource player d m source flags)
        ((fun _ => ()) <$> Db.setLockSource player d n source flags)
  readable : (m = [] ↔ n = []) → ∀ viewer, s.canReadLock viewer d m = s.canReadLock viewer d n
  settable : (m = [] ↔ n = []) → ∀ who, s.canSetLock who d m = s.canSetLock who d n
  freed : (m = [] ↔ n = []) → Db.freeLock d m = Db.freeLock d n

/-- No name stands for no lock where it is taken as it is: whoever asks may read it, those who
control the object may set it, and there is nothing to free. -/
structure Nameless (s : Store) (d : Dbref) : Prop where
  readable : ∀ viewer, s.canReadLock viewer d [] = (s.get? d).isSome
  settable : ∀ who, s.canSetLock who d [] = s.controls who d
  freed :
    Db.Ends s (Db.freeLock d []) (if (s.get? d).isSome then .ok () else .error (.noObject d)) s

namespace Reached

open Store

variable {σ : Session} {d : Dbref} {m n : Bytes} {o : Object}

theorem lock?_nil (h : Reached σ) (ho : σ.store.get? d = some o) : o.lock? [] = none := by
  rcases hlock : o.lock? [] with _ | l
  · rfl
  · have hl : σ.store.record? d (Bytes.toLower []) = some l :=
      (record?_of_get? ho _).trans hlock
    have hname := Bytes.toLower_eq_nil.1 (h.owned.keyed d _ l hl).symm
    exact absurd hname (h.intact.named d _ l hl)

theorem nameless (h : Reached σ) (d : Dbref) : Nameless σ.store d := by
  rcases ho : σ.store.get? d with _ | o
  · refine ⟨?_, ?_, ?_⟩
    · intro viewer
      rw [canReadLock, ho]
      rfl
    · intro who
      rw [canSetLock, ho]
      exact Bool.and_true _
    · rw [ho]
      exact Db.freeLock_absent ho []
  · have hlock := h.lock?_nil ho
    refine ⟨?_, ?_, ?_⟩
    · intro viewer
      rw [canReadLock, ho, Option.any_some, hlock]
      rfl
    · intro who
      rw [canSetLock, ho, Option.bind_some, hlock]
      exact Bool.and_true _
    · have hfree : Db.Ends σ.store (Db.freeLock d []) (.ok ()) (σ.store.withoutLock d o []) :=
        Db.freeLock_withoutLock ho []
      rw [withoutLock_of_lock? ho hlock] at hfree
      rw [ho]
      exact hfree

/-- What is found of a lock does not depend on the spelling of its name. -/
theorem findLock_congr (h : Reached σ) (hmn : SameLock m n) (d : Dbref) :
    σ.store.findLock d m = σ.store.findLock d n := by
  rw [findLock, findLock]
  rcases ho : σ.store.get? d with _ | o
  · rfl
  · have hlock :
        o.lock? (lockName m) = o.lock? (lockName n) := by rw [Object.lock?, Object.lock?, hmn]
    dsimp only
    rw [hlock]
    rcases hl : o.lock? (lockName n) with _ | l
    · rfl
    · -- the name is told only if the code cannot be read
      obtain ⟨code, hcode, -⟩ := h.codeOf_eq ((record?_of_get? ho _).trans hl)
      dsimp only
      rw [hcode, hcode]

theorem checkLock_congr (h : Reached σ) (hmn : SameLock m n) (subject d : Dbref)
    (journal : List Event) :
    (σ.store.checkLock subject d m journal).1 = (σ.store.checkLock subject d n journal).1 := by
  simp only [checkLock, h.findLock_congr hmn.lockNames d]
  rcases (σ.store.findLock d (lockName n)).code with e | code
  · rfl
  · rfl

/-- In every database that can come about, two names of one lock are interchangeable, but for no
name where it is taken as it is. -/
theorem interchangeable (h : Reached σ) (hmn : SameLock m n) (d : Dbref) :
    Interchangeable σ.store d m n ∧ Nameless σ.store d := by
  refine ⟨?_, h.nameless d⟩
  have hnames := h.findLock_congr hmn.lockNames d
  exact {
    found := h.findLock_congr hmn d
    shown := fun viewer mode => by simp only [showLock, hnames]
    checked := fun subject journal => h.checkLock_congr hmn subject d journal
    linted := by
      refine ((Db.lintLock_eq σ.store d m).map _).agree
        ((Db.lintLock_eq σ.store d n).map _) ?_ rfl
      rw [hnames]
      rcases (σ.store.findLock d (lockName n)).code with e | code
      · rfl
      · exact congrArg Except.ok (warnings_unnamed rfl code d _ _)
    set := Db.setLock_spelled hmn σ.store d
    compiled := fun player source => Lock.compileWith_ofType (σ.store.typingContext player [])
      (Db.lockName_ne_nil m) (Db.lockName_ne_nil n) source
    source := fun player source flags hsame => Db.setLockSource_spelled hmn hsame
    recoded := fun player source flags code code' hm hn hcode hcode' =>
      Db.setLockSource_agree hmn hm hn
        (Db.setLock_recoded hmn.lockNames σ.store d hcode hcode' player flags) fun _ _ _ => rfl
    readable := fun hempty viewer => σ.store.canReadLock_congr (hmn.toLower hempty) viewer d
    settable := fun hempty who => σ.store.canSetLock_congr (hmn.toLower hempty) who d
    freed := fun hempty => Db.freeLock_congr (hmn.toLower hempty) d }

end Reached

/-- Two players; the default lock of `#1` is for its owner to read and for wizards to change. -/
def guardedHome : Session :=
  Operation.performAll (Operation.start .standard .none)
    [.addNew 1 1, .addNew 2 2, .setLock 1 "Basic" (some [0]) 1 ⟨5⟩]

theorem guardedHome_reached : Reached guardedHome :=
  Reached.performAll (.new .standard .memory .none) (by decide)

theorem interchangeable_guardedHome :
    (SameLock [] "BASIC" ∧ Interchangeable guardedHome.store 1 [] "BASIC" ∧
      Nameless guardedHome.store 1) ∧
      SameLock "basic" "BASIC" ∧ Db.freeLock 1 "basic" = Db.freeLock 1 "BASIC" := by
  have hempty : SameLock [] "BASIC" := by decide +kernel
  have hcase : SameLock "basic" "BASIC" := by decide +kernel
  refine ⟨⟨hempty, guardedHome_reached.interchangeable hempty 1⟩, hcase, ?_⟩
  exact (guardedHome_reached.interchangeable hcase 1).1.freed (by decide)

/-- No name is a name of the default lock, and yet that is not freed by no name, and whoever may
not read or change it under its name may do so under none. -/
theorem interchangeable_not_unnamed :
    Reached guardedHome ∧ SameLock [] "Basic" ∧
      ¬Db.Agree Store.lowered guardedHome.store (Db.freeLock 1 []) (Db.freeLock 1 "Basic") ∧
      guardedHome.store.canReadLock 2 1 [] ≠ guardedHome.store.canReadLock 2 1 "Basic" ∧
      guardedHome.store.canSetLock 1 1 [] ≠ guardedHome.store.canSetLock 1 1 "Basic" := by
  refine ⟨guardedHome_reached, by decide +kernel, ?_, by decide +kernel, by decide +kernel⟩
  rintro ⟨r, r', t, t', hnone, hbasic, -, hsame⟩
  have hkept := (hnone guardedHome rfl).2
  have hfreed := (hbasic guardedHome rfl).2
  rw [← hkept, ← hfreed] at hsame
  have hfound := congrArg (fun s => (s.findLock 1 "Basic").record.isSome) hsame
  exact absurd hfound (by decide +kernel)

end Database
end Locksmith
