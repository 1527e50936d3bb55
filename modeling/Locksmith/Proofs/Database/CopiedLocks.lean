import Locksmith.Proofs.Database.Reached
import Locksmith.Proofs.Machine.Depth

namespace Locksmith
namespace Database
namespace Store

variable {s s₀ : Store} {source d : Dbref} {l : LockRecord} {rest : List LockRecord}
  {o : Object} {p : Packed}

/-- What holds of a database before locks of an object are copied: the records stand under their
own names and have chunks of their own that can be read, and there are enough references for the
copies. -/
structure Copyable (s : Store) (source : Dbref) : Prop where
  separate : s.Separate (s.locks source).length
  started : 0 < s.chunks.next.num.toNat
  distinct : (s.locks source).Nodup
  keyed : ∀ l ∈ s.locks source, lockName l.name = l.name ∧
    s.record? source l.name.toLower = some l
  readable : ∀ l ∈ s.locks source, l.ref.isZero = false ∧
    ∃ p code, s.chunks.chunks.get? l.ref = some p ∧ p.Holds code

def copiedCode (s : Store) (source : Dbref) (l : LockRecord) : Except Error LockCode :=
  (s.codeOf source l.name l).map s.chunks.medium.copy

/-- On the way from `s₀` the locks of an object are copied onto another: those in `rest` are
still as they were, the others have their copies, and no other lock has changed. -/
structure Copying (s₀ : Store) (source d : Dbref) (rest : List LockRecord)
    (s : Store) : Prop where
  separate : s.Separate rest.length
  started : 0 < s.chunks.next.num.toNat
  medium : s.chunks.medium = s₀.chunks.medium
  there : ∃ o, s.get? d = some o
  sublist : rest.Sublist (s₀.locks source)
  ahead : ∀ l ∈ rest, s.record? source l.name.toLower = some l ∧
    s.chunks.chunks.get? l.ref = s₀.chunks.chunks.get? l.ref
  behind : ∀ l ∈ s₀.locks source, l ∈ rest ∨ ∃ ref,
    s.findLock d l.name = ⟨some { l with ref }, s₀.copiedCode source l⟩
  others : ∀ d' name,
    ¬(d' = d ∧ ∃ l ∈ s₀.locks source, l.name.toLower = (lockName name).toLower) →
    s.findLock d' name = s₀.findLock d' name

theorem Copyable.copying (h : s₀.Copyable source) (ho : s₀.get? d = some o) :
    Copying s₀ source d (s₀.locks source) s₀ where
  separate := h.separate
  started := h.started
  medium := rfl
  there := ⟨o, ho⟩
  sublist := .refl _
  ahead l hl := ⟨(h.keyed l hl).2, rfl⟩
  behind _ hl := .inl hl
  others _ _ _ := rfl

theorem findLock_of_record? {name : Bytes} (h : s.record? d (lockName name).toLower = some l) :
    s.findLock d name = ⟨some l, s.codeOf d (lockName name) l⟩ := by
  obtain ⟨o, ho, hl⟩ := get?_of_record? h
  rw [findLock, ho]
  simp only [Object.lock?, hl]

/-- A lock is found under its name, with the code in its chunk. -/
theorem Copyable.findLock_eq (h : s₀.Copyable source) (hl : l ∈ s₀.locks source)
    {code : LockCode} (hp : s₀.chunks.chunks.get? l.ref = some p) (hcode : p.Holds code) :
    s₀.findLock source l.name = ⟨some l, .ok code⟩ ∧
      s₀.copiedCode source l = .ok (s₀.chunks.medium.copy code) := by
  obtain ⟨hname, hrecord⟩ := h.keyed l hl
  have hread : s₀.codeOf source l.name l = .ok code := by
    rw [codeOf, (h.readable l hl).1, if_neg Bool.false_ne_true, Chunk.Store.fetch, hp]
    simp only [hcode.unpack]
    rfl
  constructor
  · rw [findLock_of_record? (by rw [hname, hrecord]), hname, hread]
  · rw [copiedCode, hread]
    rfl

/-- One more lock has got its copy. -/
theorem Copying.withLock (h : Copying s₀ source d (l :: rest) s) (h₀ : s₀.Copyable source)
    (ho : s.get? d = some o) {code : LockCode} (hp : p.Holds code)
    (hcode : s₀.copiedCode source l = .ok code) :
    Copying s₀ source d rest (s.withLock d o l.name l.creator l.flags p) := by
  have hput :
      Relocked s d l.name l.creator l.flags (s.withLock d o l.name l.creator l.flags p) :=
    .put ho p
  have hl : l ∈ s₀.locks source := h.sublist.subset List.mem_cons_self
  have hname := (h₀.keyed l hl).1
  -- two records under one name are one
  have hsame {l' : LockRecord} (hl' : l' ∈ s₀.locks source)
      (hkey : l'.name.toLower = l.name.toLower) : l' = l := by
    have hrecord := (h₀.keyed l' hl').2
    rw [hkey, (h₀.keyed l hl).2] at hrecord
    exact (Option.some.inj hrecord).symm
  have hfirst : l ∉ rest := (List.nodup_cons.1 (h.sublist.nodup h₀.distinct)).1
  have hother {l' : LockRecord} (hl' : l' ∈ rest) :
      ¬(source = d ∧ l'.name.toLower = l.name.toLower) := by
    rintro ⟨-, hkey⟩
    rw [hsame (h.sublist.subset (List.mem_cons_of_mem _ hl')) hkey] at hl'
    exact hfirst hl'
  have hissued : s.Issued := ⟨h.started, h.separate.given⟩
  constructor
  · exact hput.separate h.separate
  · have hroom := h.separate.room
    rw [List.length_cons] at hroom
    have hnext :
        (s.withLock d o l.name l.creator l.flags p).chunks.next = ⟨s.chunks.next.num + 1⟩ := by
      rw [Store.withLock, next_forget, chunks_modify]
      rfl
    rw [hnext]
    change 0 < (s.chunks.next.num + 1).toNat
    rw [UInt64.toNat_add, UInt64.toNat_one, Nat.mod_eq_of_lt (by omega)]
    exact Nat.succ_pos _
  · rw [medium_withLock, h.medium]
  · refine ⟨o.putLock ⟨l.name, l.creator, l.flags, s.chunks.next⟩, ?_⟩
    rw [Store.withLock, get?_forget, get?_modify, if_pos rfl]
    exact congrArg (Option.map _) ho
  · exact List.sublist_of_cons_sublist h.sublist
  · intro l' hl'
    obtain ⟨hrecord, hchunk⟩ := h.ahead l' (List.mem_cons_of_mem _ hl')
    constructor
    · exact ((hput.record?_cases source _).resolve_right fun hat => hother hl' hat.1).trans
        hrecord
    · exact (hput.chunk h.separate hrecord (hother hl')).trans hchunk
  · intro l' hl'
    by_cases hthis : l' = l
    · refine .inr ⟨s.chunks.next, ?_⟩
      have hfound := hissued.findLock_withLock ho hp l.name l.creator l.flags
      rw [hname] at hfound
      rw [hthis, hcode, hfound]
    · rcases h.behind l' hl' with hmem | ⟨ref, hfound⟩
      · exact .inl ((List.mem_cons.1 hmem).resolve_left hthis)
      · refine .inr ⟨ref, (hput.findLock_eq h.separate ?_).trans hfound⟩
        rintro ⟨-, hkey⟩
        rw [(h₀.keyed l' hl').1] at hkey
        exact hthis (hsame hl' hkey)
  · intro d' name hnot
    refine (hput.findLock_eq h.separate ?_).trans (h.others d' name hnot)
    rintro ⟨hd, hkey⟩
    exact hnot ⟨hd, l, hl, hkey.symm⟩

end Store

namespace Db

open Store

variable {s s₀ : Store} {source d : Dbref} {l : LockRecord} {rest : List LockRecord}
  {o : Object} {p : Packed}

/-- Copying a lock whose chunk is there does not fail. -/
theorem copyLock_withLock (ho : s.get? d = some o) (href : l.ref.isZero = false)
    (hp : s.chunks.chunks.get? l.ref = some p) {code : LockCode} (hcode : p.Holds code)
    (source : Dbref) :
    Ensures (· = s) (copyLock source d l) fun out s' => out = .ok () ∧
      ∃ p', p'.Holds (s.chunks.medium.copy code) ∧
        s' = s.withLock d o l.name l.creator l.flags p' := by
  obtain ⟨x, hx⟩ : ∃ x, s.chunks.duplicate l.ref = .ok x := by
    rw [Chunk.Store.duplicate, hp]
    exact ⟨_, rfl⟩
  obtain ⟨p₀, p', hp₀, hcopied, rfl⟩ := Chunk.Store.append_of_duplicate hx
  cases hp.symm.trans hp₀
  refine .ite (fun hzero => ?_) fun _ => ?_
  · rw [href] at hzero
    cases hzero
  · refine .bind (r := fun out s' => out = .ok s.chunks.next ∧
      s' = { s with chunks := (s.chunks.append p').2 })
      (.step ?_ ?_) ?_ ?_
    · rintro _ ref s' rfl hstep
      rw [copyChunk, hx] at hstep
      cases hstep
      exact ⟨rfl, rfl⟩
    · rintro _ e rfl hstep
      rw [copyChunk, hx] at hstep
      cases hstep
    · intro ref
      apply Ensures.of_forall
      rintro _ ⟨hout, rfl⟩
      cases hout
      refine (replaceLock_withLock ho (fun _ => .pure fun _ h => ⟨rfl, h⟩) l.name l.creator
        l.flags p').imp (fun _ h => h) ?_
      exact fun _ _ h => ⟨h.1, p', hcopied code hcode, h.2⟩
    · rintro e s' ⟨hout, -⟩
      cases hout

theorem copyLock_copying (h₀ : s₀.Copyable source) :
    Ensures (Copying s₀ source d (l :: rest)) (copyLock source d l) fun out s =>
      out = .ok () ∧ Copying s₀ source d rest s := by
  apply Ensures.of_forall
  intro s h
  obtain ⟨o, ho⟩ := h.there
  have hl : l ∈ s₀.locks source := h.sublist.subset List.mem_cons_self
  obtain ⟨href, p, code, hp, hcode⟩ := h₀.readable l hl
  have hchunk : s.chunks.chunks.get? l.ref = some p := (h.ahead l List.mem_cons_self).2.trans hp
  refine (copyLock_withLock ho href hchunk hcode source).imp (fun _ h => h) ?_
  rintro out _ ⟨hout, p', hp', rfl⟩
  rw [h.medium] at hp'
  exact ⟨hout, h.withLock h₀ ho hp' (h₀.findLock_eq hl hp hcode).2⟩

/-- All locks of an object are copied onto another that is there. -/
theorem copyLocks_copying (h₀ : s₀.Copyable source) (hd : s₀.isValid d = true) :
    Ensures (· = s₀) (copyLocks source d) fun out s =>
      out = .ok () ∧ Copying s₀ source d [] s := by
  obtain ⟨o, ho⟩ := Option.isSome_iff_exists.1 (Bool.and_eq_true_iff.1 hd).2
  apply Ensures.store_bind
  rintro s rfl
  refine .ite (fun hinvalid => ?_) fun _ => ?_
  · rw [hd] at hinvalid
    cases hinvalid
  · refine (Ensures.forIn (Copying s source d) (fun _ _ => False) _ fun l rest => ?_).imp ?_ ?_
    · refine (copyLock_copying h₀).imp (fun _ h => h) ?_
      rintro _ s ⟨rfl, h⟩
      exact h
    · rintro _ rfl
      exact h₀.copying ho
    · rintro (_ | _) s h
      · exact h.elim
      · exact ⟨rfl, h⟩

/-- Locks are copied onto an object just if it is there. -/
theorem copyLocks_succeeds_iff (h₀ : s₀.Copyable source) {σ : Session} (hσ : σ.store = s₀) :
    ((copyLocks source d).run.run σ).1 = .ok () ↔ s₀.isValid d = true := by
  constructor
  · intro hout
    by_contra hd
    have hfails :
        Ensures (· = s₀) (copyLocks source d) fun out _ => out = .error (.noObject d) := by
      apply Ensures.store_bind
      rintro s rfl
      refine .ite (fun _ => .throw fun _ _ => rfl) fun hvalid => ?_
      rw [Bool.not_eq_true', Bool.not_eq_false] at hvalid
      exact absurd hvalid hd
    cases hout.symm.trans (hfails σ hσ)
  · exact fun hd => (copyLocks_copying h₀ hd σ hσ).1

end Db

namespace Store

/-- Nobody passes a lock with empty code. -/
theorem evaluate_empty (s : Store) (subject target : Dbref) (journal : List Event) :
    (s.machine.evaluate (some []) subject target journal).1 = false := by
  have hfetch : Bytecode.fetch [] 0 = .error ⟨0, .outOfRange⟩ := rfl
  rw [Machine.evaluate, Machine.run_some, Machine.runCode,
    Machine.verdictFrom_of_error _ hfetch]
  rfl

theorem evaluate_open (s : Store) (subject target : Dbref) :
    s.machine.evaluate none subject target = pure true := by
  rw [Machine.evaluate, Machine.run_none]
  rfl

/-- What memory keeps as a copy of code is that code to the lock machine, unless the code is
empty. -/
theorem evaluate_copy_iff (s : Store) (code : LockCode) :
    (∀ subject target, s.machine.evaluate (Chunk.Medium.memory.copy code) subject target =
      s.machine.evaluate code subject target) ↔ code ≠ some [] := by
  constructor
  · rintro h rfl
    have hempty := s.evaluate_empty 0 0 []
    rw [← h 0 0, show Chunk.Medium.memory.copy (some []) = none from rfl,
      s.evaluate_open] at hempty
    cases hempty
  · intro hcode subject target
    rw [show Chunk.Medium.memory.copy code = code from if_neg hcode]

end Store

namespace Reached

variable {σ : Session} {source d : Dbref}

theorem copyable (h : Reached σ)
    (hroom : σ.store.chunks.next.num.toNat + (σ.store.locks source).length < 2 ^ 64) :
    σ.store.Copyable source where
  separate := (h.owned.with_room hroom).separate
  started := h.owned.room.1
  distinct := by
    rw [Store.locks]
    rcases ho : σ.store.get? source with _ | o
    · exact List.nodup_nil
    · exact (List.mergeSort_perm _ _).nodup_iff.2 (.of_map _ (h.owned.nodup_refs ho))
  keyed l hl := by
    obtain ⟨key, hkey⟩ := Db.mem_locks.1 hl
    exact ⟨h.lockName_name hkey, h.owned.keyed source key l hkey ▸ hkey⟩
  readable l hl := by
    obtain ⟨key, hkey⟩ := Db.mem_locks.1 hl
    have hheld := h.owned.held source key l hkey
    obtain ⟨p, hp⟩ := Option.isSome_iff_exists.1 hheld
    obtain ⟨code, hcode⟩ := h.intact.readable l.ref p hp
    exact ⟨h.owned.isZero_eq_false hheld, p, code, hp, hcode⟩

/-- The locks of an object can be copied onto any that is there, and then each of them has a
copy with its name, creator and flags. The code of the copy is that of the lock, and does what
it does; only empty code, which nobody passes, becomes an open lock. Nothing else changes:
neither the other locks of the object that is copied onto, nor any of the object that is copied
from, unless it is the same one. -/
theorem copyLocks_copies (h : Reached σ) (hmemory : σ.store.chunks.medium = .memory)
    (source d : Dbref)
    (hroom : σ.store.chunks.next.num.toNat + (σ.store.locks source).length < 2 ^ 64) :
    ((∃ σ', (Db.copyLocks source d).run.run σ = (.ok (), σ')) ↔ σ.store.isValid d = true) ∧
    ∀ σ', (Db.copyLocks source d).run.run σ = (.ok (), σ') →
      (∀ l ∈ σ.store.locks source, ∃ code copy ref,
        σ.store.findLock source l.name = ⟨some l, .ok code⟩ ∧
        σ'.store.findLock d l.name = ⟨some { l with ref }, .ok copy⟩ ∧
        copy = (if code = some [] then none else code) ∧
        ((∀ subject target, σ'.store.machine.evaluate copy subject target =
          σ'.store.machine.evaluate code subject target) ↔ code ≠ some [])) ∧
      (∀ name, (∀ l ∈ σ.store.locks source, l.name.toLower ≠ (lockName name).toLower) →
        σ'.store.findLock d name = σ.store.findLock d name) ∧
      (source ≠ d → ∀ name, σ'.store.findLock source name = σ.store.findLock source name) := by
  have hcopyable := h.copyable hroom
  have hsucceeds := Db.copyLocks_succeeds_iff (d := d) hcopyable rfl
  constructor
  · rw [← hsucceeds]
    constructor
    · rintro ⟨σ', hrun⟩
      rw [hrun]
    · exact fun hout => ⟨_, Prod.ext hout rfl⟩
  · intro σ' hrun
    have hd := hsucceeds.1 (congrArg Prod.fst hrun)
    have hcopied := (Db.copyLocks_copying hcopyable hd σ rfl).2
    rw [hrun] at hcopied
    refine ⟨?_, ?_, ?_⟩
    · intro l hl
      obtain ⟨-, p, code, hp, hcode⟩ := hcopyable.readable l hl
      obtain ⟨hfound, hcopiedCode⟩ := hcopyable.findLock_eq hl hp hcode
      obtain ⟨ref, hcopy⟩ := (hcopied.behind l hl).resolve_left List.not_mem_nil
      rw [hcopiedCode, hmemory] at hcopy
      exact ⟨code, _, ref, hfound, hcopy, rfl, Store.evaluate_copy_iff _ code⟩
    · intro name hname
      apply hcopied.others
      rintro ⟨-, l, hl, heq⟩
      exact hname l hl heq
    · intro hne name
      apply hcopied.others
      rintro ⟨heq, -⟩
      exact hne heq

/-- An object `#1` with two locks, the second of them with empty code, and an object `#2`
without locks. -/
def twoLocks : Session :=
  Operation.performAll (Operation.start .standard .none)
    [.addNew 1 1, .addNew 2 1, .setLock 1 "Use" (some [0]) 1 ⟨2⟩,
      .setLock 1 "Enter" (some []) 1 ⟨0⟩]

theorem twoLocks_reached : Reached twoLocks :=
  Reached.performAll (.new .standard .memory .none) (by decide)

theorem twoLocks_copyable : twoLocks.store.Copyable 1 := by
  apply twoLocks_reached.copyable
  rw [Store.length_locks]
  decide +kernel

theorem twoLocks_findLock (l : LockRecord) (code : LockCode) {p : Packed}
    (hl : twoLocks.store.record? 1 l.name.toLower = some l)
    (hp : twoLocks.store.chunks.chunks.get? l.ref = some p)
    (hpack : Packed.pack .none code = .ok p) :
    l ∈ twoLocks.store.locks 1 ∧ twoLocks.store.findLock 1 l.name = ⟨some l, .ok code⟩ ∧
      twoLocks.store.copiedCode 1 l = .ok (Chunk.Medium.memory.copy code) := by
  have hmem : l ∈ twoLocks.store.locks 1 := Db.mem_locks.2 ⟨_, hl⟩
  exact ⟨hmem, twoLocks_copyable.findLock_eq hmem hp (Packed.holds_of_pack hpack)⟩

/-- The lock with code is copied, and passed by who passes the lock itself. -/
theorem copyLocks_copies_twoLocks :
    ∃ σ' ref, (Db.copyLocks 1 2).run.run twoLocks = (.ok (), σ') ∧
      twoLocks.store.findLock 1 "Use" = ⟨some ⟨"Use", 1, ⟨2⟩, ⟨1⟩⟩, .ok (some [0])⟩ ∧
      σ'.store.findLock 1 "Use" = ⟨some ⟨"Use", 1, ⟨2⟩, ⟨1⟩⟩, .ok (some [0])⟩ ∧
      σ'.store.findLock 2 "Use" = ⟨some ⟨"Use", 1, ⟨2⟩, ref⟩, .ok (some [0])⟩ := by
  obtain ⟨hmem, huse, -⟩ := twoLocks_findLock ⟨"Use", 1, ⟨2⟩, ⟨1⟩⟩ (some [0]) rfl rfl rfl
  have hroom :
      twoLocks.store.chunks.next.num.toNat + (twoLocks.store.locks 1).length < 2 ^ 64 := by
    rw [Store.length_locks]
    decide +kernel
  obtain ⟨hsucceeds, hcopies⟩ := copyLocks_copies twoLocks_reached rfl 1 2 hroom
  obtain ⟨σ', hrun⟩ := hsucceeds.2 (by decide +kernel)
  obtain ⟨hlocks, -, hsource⟩ := hcopies σ' hrun
  obtain ⟨code, copy, ref, hcode, hcopy, rfl, -⟩ := hlocks _ hmem
  cases huse.symm.trans hcode
  exact ⟨σ', ref, hrun, huse, (hsource (by decide) _).trans huse, hcopy⟩

/-- The lock with empty code is copied as an open one: nobody passes the lock, and everybody the
copy. -/
theorem copyLocks_opens_empty :
    ∃ σ' ref, (Db.copyLocks 1 2).run.run twoLocks = (.ok (), σ') ∧
      σ'.store.findLock 1 "Enter" = ⟨some ⟨"Enter", 1, ⟨0⟩, ⟨2⟩⟩, .ok (some [])⟩ ∧
      σ'.store.findLock 2 "Enter" = ⟨some ⟨"Enter", 1, ⟨0⟩, ref⟩, .ok none⟩ ∧
      (σ'.store.machine.evaluate (some []) 1 2 []).1 = false ∧
      (σ'.store.machine.evaluate none 1 2 []).1 = true := by
  obtain ⟨hmem, hempty, hcode⟩ := twoLocks_findLock ⟨"Enter", 1, ⟨0⟩, ⟨2⟩⟩ (some []) rfl rfl rfl
  obtain ⟨hout, hcopied⟩ :=
    Db.copyLocks_copying (d := 2) twoLocks_copyable (by decide +kernel) twoLocks rfl
  obtain ⟨ref, hcopy⟩ := (hcopied.behind _ hmem).resolve_left List.not_mem_nil
  rw [hcode] at hcopy
  refine ⟨_, ref, Prod.ext hout rfl, ?_, hcopy, Store.evaluate_empty _ 1 2 [], ?_⟩
  · rw [← hempty]
    apply hcopied.others
    rintro ⟨heq, -⟩
    cases heq
  · rw [Store.evaluate_open]
    rfl

end Reached
end Database
end Locksmith
