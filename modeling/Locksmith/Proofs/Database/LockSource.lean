import Locksmith.Proofs.Database.Reached
import Locksmith.Proofs.Database.ShownLocks
import Locksmith.Proofs.Machine.Leaves

namespace Locksmith

/-- Packing in a way without a meaning fails. -/
theorem Packed.pack_unsupported {c : Compression} (hc : ¬c.Supported) {data : Option Bytes}
    (hdata : (data.getD []).length ≤ maxChunkSize) : pack c data = .error (.unsupported c) := by
  have hcompress : c.compress (data.getD []) = .error (.unsupported c) := by
    obtain ⟨tag⟩ := c
    unfold Compression.compress
    split
    · rename_i htag
      cases htag
      exact absurd (.inl rfl) hc
    · rename_i htag
      cases htag
      exact absurd (.inr (.inl rfl)) hc
    · rename_i htag
      cases htag
      exact absurd (.inr (.inr rfl)) hc
    · rfl
  unfold pack
  dsimp only
  rw [if_neg (Nat.not_lt.2 hdata), if_neg fun hnone => hc (.inl hnone), hcompress]

theorem Lock.compileWith_eq_none_iff {ctx : ParseContext} {source : Bytes} :
    compileWith ctx source = .ok none ↔ Escape.Blank source := by
  have hblank : Key.parse ctx source = .ok none ↔ Escape.Blank source :=
    Grammar.parse_eq_none_iff
  rw [← hblank]
  constructor
  · intro h
    obtain ⟨key?, hparse, hcode⟩ := compileWith_eq_ok h
    cases key? with
    | none => exact hparse
    | some key =>
      obtain ⟨a, -, hsome⟩ := ofKey_eq_ok hcode
      cases hsome
  · intro h
    rw [compileWith, h]
    rfl

namespace Database
namespace Store

variable {s : Store} {player d creator : Dbref} {name source : Bytes} {flags : LockFlags}
  {o : Object}

/-- What stands in the way of setting a lock on an object from its text: the player may not, the
text describes no lock, the object is not there, or the code cannot be kept as a chunk. -/
inductive Refuses (s : Store) (player d : Dbref) (name source : Bytes) : Error → Prop where
  | forbidden (cannot : s.canSetLock player d name = false) :
      Refuses s player d name source .permission
  | uncompiled {e : CompileError} (failed : s.compiler.compile source player name = .error e) :
      Refuses s player d name source (.compiling name e)
  | absent (gone : s.isValid d = false) : Refuses s player d name source (.noObject d)
  | tooLong {code : Bytes} (compiled : s.compiler.compile source player name = .ok (some code))
      (long : maxChunkSize < code.length) :
      Refuses s player d name source (.storing name d (.packing (.tooLarge code.length)))
  | unsupported (unknown : ¬s.chunks.compression.Supported) :
      Refuses s player d name source
        (.storing name d (.packing (.unsupported s.chunks.compression)))

/-- What is found under a name once a lock with some code was set: no record if the lock is
open. -/
def Finds (s : Store) (d : Dbref) (name : Bytes) (creator : Dbref) (flags : LockFlags) :
    LockCode → Prop
  | none => s.findLock d name = ⟨none, .ok none⟩
  | some code =>
    ∃ ref, s.findLock d name = ⟨some ⟨lockName name, creator, flags, ref⟩, .ok (some code)⟩

def withoutLock (s : Store) (d : Dbref) (o : Object) (name : Bytes) : Store :=
  (s.modify d (·.dropLock name)).forget (o.lock? name)

theorem findLock_withoutLock (ho : s.get? d = some o) (name : Bytes) :
    (s.withoutLock d o (lockName name)).findLock d name = ⟨none, .ok none⟩ := by
  have hget :
      (s.withoutLock d o (lockName name)).get? d = some (o.dropLock (lockName name)) := by
    rw [withoutLock, get?_forget, get?_modify, if_pos rfl, ho, Option.map_some]
  rw [findLock, hget]
  simp only [Object.lock?, Object.dropLock, SortedMap.get?_erase_self]

/-- Why code cannot be kept as a chunk, if it cannot. -/
theorem create_fails {code : Bytes}
    (h : ¬(s.chunks.compression.Supported ∧ code.length ≤ maxChunkSize)) :
    ∃ e, s.chunks.create (some code) = .error (.packing e) ∧
      (maxChunkSize < code.length ∧ e = .tooLarge code.length ∨
        ¬s.chunks.compression.Supported ∧ e = .unsupported s.chunks.compression) := by
  by_cases hlong : maxChunkSize < code.length
  · refine ⟨.tooLarge code.length, ?_, .inl ⟨hlong, rfl⟩⟩
    have hpack :
        Packed.pack s.chunks.compression (some code) = .error (.tooLarge code.length) :=
      if_pos hlong
    rw [Chunk.Store.create, hpack]
    rfl
  · have hfits := Nat.not_lt.1 hlong
    have hc : ¬s.chunks.compression.Supported := fun hc => h ⟨hc, hfits⟩
    refine ⟨.unsupported s.chunks.compression, ?_, .inr ⟨hc, rfl⟩⟩
    have hpack :
        Packed.pack s.chunks.compression (some code) =
          .error (.unsupported s.chunks.compression) :=
      Packed.pack_unsupported hc hfits
    rw [Chunk.Store.create, hpack]
    rfl

end Store

namespace Db

open Store

variable {s : Store} {player d creator : Dbref} {name source : Bytes} {flags : LockFlags}
  {o : Object}

theorem freeLock_withoutLock (ho : s.get? d = some o) (name : Bytes) :
    Ensures (· = s) (freeLock d name) fun out s' =>
      out = .ok () ∧ s' = s.withoutLock d o name := by
  refine .bind (r := fun out s' => out = .ok (o.lock? name) ∧ s' = s.modify d (·.dropLock name))
    (.step ?_ ?_) ?_ ?_
  · rintro _ old s' rfl hstep
    rw [takeLock, ho] at hstep
    cases hstep
    exact ⟨rfl, rfl⟩
  · rintro _ e rfl hstep
    rw [takeLock, ho] at hstep
    cases hstep
  · intro old
    apply Ensures.of_forall
    rintro _ ⟨hold, rfl⟩
    cases hold
    rcases hlock : o.lock? name with _ | l
    · refine .pure fun _ h => ⟨rfl, ?_⟩
      rw [h, withoutLock, hlock]
      rfl
    · refine .look_bind fun _ => (release_forget l).imp (fun _ h => h) fun _ _ h => ⟨h.1, ?_⟩
      rw [h.2, withoutLock, hlock]
  · rintro e s' ⟨hout, -⟩
    cases hout

/-- An open lock leaves no record. -/
theorem setLock_open (hvalid : s.isValid d = true) (ho : s.get? d = some o) (creator : Dbref)
    (flags : LockFlags) :
    Ensures (· = s) (setLock d name none creator flags) fun out s' =>
      out = .ok () ∧ s' = s.withoutLock d o (lockName name) := by
  refine .store_bind ?_
  rintro _ rfl
  refine .ite (fun hinvalid => ?_) fun _ => freeLock_withoutLock ho _
  rw [hvalid] at hinvalid
  cases hinvalid

theorem setLock_absent (hinvalid : s.isValid d = false) (code : LockCode) (creator : Dbref)
    (flags : LockFlags) :
    Ensures (· = s) (setLock d name code creator flags) fun out s' =>
      out = .error (.noObject d) ∧ s' = s := by
  refine .store_bind ?_
  rintro _ rfl
  refine .ite (fun _ => .throw fun _ h => ⟨rfl, h⟩) fun hvalid => ?_
  rw [hinvalid] at hvalid
  exact absurd rfl hvalid

/-- Code that cannot be kept as a chunk leaves the database as it is. -/
theorem setLock_of_create {code : Bytes} {e : Chunk.Error} (hvalid : s.isValid d = true)
    (he : s.chunks.create (some code) = .error e) (creator : Dbref) (flags : LockFlags) :
    Ensures (· = s) (setLock d name (some code) creator flags) fun out s' =>
      out = .error (.storing (lockName name) d e) ∧ s' = s := by
  apply Ensures.store_bind
  rintro s rfl
  refine .ite (fun hinvalid => ?_) fun _ => ?_
  · rw [hvalid] at hinvalid
    cases hinvalid
  · refine .bind (r := fun out s' => out = .error (.storing (lockName name) d e) ∧ s' = s)
      (.step ?_ ?_) ?_ ?_
    · rintro _ ref s' rfl hstep
      rw [keepCode, he] at hstep
      cases hstep
    · rintro _ e' rfl hstep
      rw [keepCode, he] at hstep
      cases hstep
      exact ⟨rfl, rfl⟩
    · intro ref
      apply Ensures.of_forall
      rintro s' ⟨hout, -⟩
      cases hout
    · rintro e' s' ⟨hout, rfl⟩
      cases hout
      exact ⟨rfl, rfl⟩

/-- How setting a lock from its text ends: the database is as it was, for a reason, or the lock
is found. -/
def AllOrNothing {α : Type} (s : Store) (player d : Dbref) (name source : Bytes)
    (flags : LockFlags) :
    Except Error α → Store → Prop
  | .error e, s' => s' = s ∧ s.Refuses player d (lockName name) source e
  | .ok _, s' => ∃ code, s.compiler.compile source player (lockName name) = .ok code ∧
      s'.Finds d name player flags code

/-- Setting a lock with the code of a text, where that is allowed. -/
theorem setLock_allOrNothing (h : s.Issued) {code : LockCode}
    (hcode : s.compiler.compile source player (lockName name) = .ok code) :
    Ensures (· = s) (setLock d (lockName name) code player flags)
      (AllOrNothing s player d name source flags) := by
  by_cases hvalid : s.isValid d = true
  · obtain ⟨o, ho⟩ := get?_of_isValid hvalid
    cases code with
    | none =>
      refine (setLock_open hvalid ho player flags).imp (fun _ h => h) ?_
      rintro _ _ ⟨rfl, rfl⟩
      rw [lockName_idem]
      exact ⟨none, hcode, findLock_withoutLock ho name⟩
    | some code =>
      by_cases hfits : s.chunks.compression.Supported ∧ code.length ≤ maxChunkSize
      · have hsentinel :
            d.isSentinel = false := by simpa using (Bool.and_eq_true_iff.1 hvalid).1
        refine (setLock_withLock hsentinel ho hfits.1 hfits.2 player flags).imp
          (fun _ h => h) ?_
        rintro _ _ ⟨rfl, p, hp, rfl⟩
        rw [lockName_idem]
        exact ⟨some code, hcode, _, h.findLock_withLock ho hp name player flags⟩
      · obtain ⟨e, hcreate, hreason⟩ := create_fails hfits
        refine (setLock_of_create hvalid hcreate player flags).imp (fun _ h => h) ?_
        rintro _ _ ⟨rfl, rfl⟩
        rw [lockName_idem]
        rcases hreason with ⟨hlong, rfl⟩ | ⟨hunknown, rfl⟩
        · exact ⟨rfl, .tooLong hcode hlong⟩
        · exact ⟨rfl, .unsupported hunknown⟩
  · rw [Bool.not_eq_true] at hvalid
    refine (setLock_absent hvalid code player flags).imp (fun _ h => h) ?_
    rintro _ _ ⟨rfl, rfl⟩
    exact ⟨rfl, .absent hvalid⟩

/-- Setting a lock from its text is all or nothing. If it fails, there is a reason and the
database is as it was, with all objects, lock records and chunks and the reference that is given
away next. If it does not, the lock is found under its name, made by the player with the flags
and the code of the text; a blank text leaves no record. -/
theorem setLockSource_allOrNothing {σ : Session} (h : σ.store.Issued) (player d : Dbref)
    (name source : Bytes) (flags : LockFlags) :
    (∀ e σ', (setLockSource player d name source flags).run.run σ = (.error e, σ') →
      σ'.store = σ.store ∧ σ.store.Refuses player d (lockName name) source e) ∧
    ∀ warnings σ', (setLockSource player d name source flags).run.run σ = (.ok warnings, σ') →
      ∃ code, σ.store.compiler.compile source player (lockName name) = .ok code ∧
        (code = none ↔ Escape.Blank source) ∧ σ'.store.Finds d name player flags code := by
  have hall : Ensures (· = σ.store) (setLockSource player d name source flags)
      (AllOrNothing σ.store player d name source flags) := by
    refine .store_bind ?_
    rintro s rfl
    refine .ite (fun hcannot => ?_) fun _ => ?_
    · refine .throw ?_
      rintro _ rfl
      rw [Bool.not_eq_true'] at hcannot
      exact ⟨rfl, .forbidden hcannot⟩
    · rcases hcode : σ.store.compiler.compile source player (lockName name) with e | code
      · refine .throw ?_
        rintro _ rfl
        exact ⟨rfl, .uncompiled hcode⟩
      · exact .bind (setLock_allOrNothing h hcode) (fun _ => .look fun _ _ hfinds => hfinds)
          fun _ _ hsame => hsame
  have hend := hall σ rfl
  constructor
  · intro e σ' hrun
    rw [hrun] at hend
    exact hend
  · intro warnings σ' hrun
    rw [hrun] at hend
    obtain ⟨code, hcode, hfinds⟩ := hend
    refine ⟨code, hcode, ?_, hfinds⟩
    have hblank :
        σ.store.compiler.compile source player (lockName name) = .ok none ↔
        Escape.Blank source :=
      Lock.compileWith_eq_none_iff
    rw [← hblank, hcode]
    exact ⟨congrArg Except.ok, Except.ok.inj⟩

/-- A player `#1` with a lock on itself. -/
def selfLocked : Session :=
  Operation.performAll (Operation.start .standard .none)
    [.addNew 1 1, .setLock 1 "Use" (some [0]) 1 ⟨0⟩]

theorem selfLocked_issued : selfLocked.store.Issued := by
  have hreached : Reached selfLocked :=
    Reached.performAll (.new .standard .memory .none) (by decide)
  exact hreached.owned.issued

/-- The lock is replaced by `=#1`; but `=#9`, an object that is not there, leaves it as it is.
-/
theorem setLockSource_allOrNothing_selfLocked :
    (∃ warnings σ', (setLockSource 1 1 "use" [61, 35, 49] ⟨2⟩).run.run selfLocked =
      (.ok warnings, σ') ∧
      σ'.store.Finds 1 "use" 1 ⟨2⟩ (some [9, 1, 0, 0, 0, 0, 0, 0, 0, 0])) ∧
    ∃ e σ', (setLockSource 1 1 "use" [61, 35, 57] ⟨2⟩).run.run selfLocked = (.error e, σ') ∧
      σ'.store = selfLocked.store := by
  have hread : Parser.readOr (selfLocked.store.typingContext 1 "use") ⟨0, [61, 35, 49], []⟩ =
      .ok (.is 0 1, ⟨3, [], [[35, 49]]⟩) := by
    rw [Parser.readOr, Parser.outcome_parseOr, Parser.outcome_parseAnd, Parser.outcome_parseNot]
    rfl
  have hcode :
      selfLocked.store.compiler.compile [61, 35, 49] 1 "use" =
        .ok (some [9, 1, 0, 0, 0, 0, 0, 0, 0, 0]) :=
    Lock.compileWith_eq (Parser.parse_of_outcome rfl hread rfl) rfl
  have hfail : Parser.readOr (selfLocked.store.typingContext 1 "use") ⟨0, [61, 35, 57], []⟩ =
      .error ⟨⟨1, .notHere [35, 57]⟩, [[35, 57]]⟩ := by
    rw [Parser.readOr, Parser.outcome_parseOr, Parser.outcome_parseAnd, Parser.outcome_parseNot]
    rfl
  have hmissing : selfLocked.store.compiler.compile [61, 35, 57] 1 "use" =
      .error (.badText ⟨1, .notHere [35, 57]⟩) := by
    have hparse :
        Key.parse (selfLocked.store.typingContext 1 "use") [61, 35, 57] =
          .error ⟨1, .notHere [35, 57]⟩ := by
      rw [Parser.parse_cons rfl, hfail]
    change Lock.compileWith (selfLocked.store.typingContext 1 "use") _ = _
    rw [Lock.compileWith, hparse]
  have hcan : selfLocked.store.canSetLock 1 1 "use" = true := by decide +kernel
  have hthere : selfLocked.store.isValid 1 = true := by decide +kernel
  have hsupported : selfLocked.store.chunks.compression.Supported := by decide +kernel
  constructor
  · obtain ⟨hnothing, hall⟩ :=
      setLockSource_allOrNothing selfLocked_issued 1 1 "use" [61, 35, 49] ⟨2⟩
    rcases hrun : (setLockSource 1 1 "use" [61, 35, 49] ⟨2⟩).run.run selfLocked with
      ⟨e | warnings, σ'⟩
    · obtain ⟨-, hrefuses⟩ := hnothing e σ' hrun
      change selfLocked.store.Refuses 1 1 "use" _ e at hrefuses
      cases hrefuses with
      | forbidden hcannot => cases hcan.symm.trans hcannot
      | uncompiled hfailed => cases hcode.symm.trans hfailed
      | absent hgone => cases hthere.symm.trans hgone
      | tooLong hcompiled hlong =>
        cases hcode.symm.trans hcompiled
        exact absurd hlong (by decide)
      | unsupported hunknown => exact absurd hsupported hunknown
    · obtain ⟨code, hcompiled, -, hfinds⟩ := hall warnings σ' hrun
      cases hcode.symm.trans hcompiled
      exact ⟨warnings, σ', rfl, hfinds⟩
  · obtain ⟨hnothing, hall⟩ :=
      setLockSource_allOrNothing selfLocked_issued 1 1 "use" [61, 35, 57] ⟨2⟩
    rcases hrun : (setLockSource 1 1 "use" [61, 35, 57] ⟨2⟩).run.run selfLocked with
      ⟨e | warnings, σ'⟩
    · exact ⟨e, σ', rfl, (hnothing e σ' hrun).1⟩
    · obtain ⟨code, hcompiled, -⟩ := hall warnings σ' hrun
      cases hmissing.symm.trans hcompiled

end Db
end Database
end Locksmith
