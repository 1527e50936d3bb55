import Locksmith.Proofs.Database.CheckpointFiles
import Locksmith.Proofs.Files.Honest

namespace Locksmith
namespace Database

open FileSystem

variable {φ : Type} {fs : FileSystem (StateM φ)} {v : FileView φ}

namespace Checkpointer

variable {c : Checkpointer} {nonce : Bytes} {s : Store} {p q : Bytes}
  {files : Bytes → Option Bytes} {reason : DumpReason}

def asidePath (c : Checkpointer) : Bytes := c.path ++ ".bak"

theorem asidePath_ne_path (c : Checkpointer) : c.asidePath ≠ c.path :=
  List.append_right_eq_self.not.2 (by decide)

theorem asidePath_ne_temporary (c : Checkpointer) (second : Bool) :
    c.asidePath ≠ c.temporary second := by
  cases second with
  | false => exact (List.append_right_inj _).not.2 (by decide)
  | true => exact (List.append_right_inj _).not.2 (by decide)

theorem yields_abandon (hfs : fs.Honest v) (hp : p ∈ v.names) (e : CheckpointError) :
    Yields v (abandon fs p e) files fun out after => out = .error e ∧ Spares p files after := by
  apply (hfs.yields_close hp).bind
  rintro _ _ rfl
  apply (hfs.yields_remove hp).bind
  intro _ _ hspares
  exact .pure ⟨rfl, hspares⟩

/-- To write a snapshot changes no other file, and if it succeeds the snapshot is complete. -/
theorem yields_writeFile (hfs : fs.Honest v) (hp : p ∈ v.names) :
    Yields v (c.writeFile fs nonce s p) files fun out after => Spares p files after ∧
      ∀ count, out = .ok count →
        ∃ raw, c.snapshot? nonce s = some raw ∧ after p = some raw := by
  have hfails {e : CheckpointError} {after : Bytes → Option Bytes} (h : Spares p files after) :
      Spares p files after ∧ ∀ count, (.error e : Except CheckpointError Nat) = .ok count →
        ∃ raw, c.snapshot? nonce s = some raw ∧ after p = some raw :=
    ⟨h, fun _ hout => by cases hout⟩
  apply (hfs.yields_create hp).bind
  rintro (e | ⟨⟩) made ⟨hmade, hempty⟩
  · exact .pure (hfails hmade)
  cases hsnapshot : s.writeSnapshot nonce c.compression c.key with
  | error e =>
    refine (yields_abandon hfs hp _).imp ?_
    rintro _ _ ⟨rfl, hspares⟩
    exact hfails (hmade.trans hspares)
  | ok out =>
    have hparts : Yields v (inTurn [fs.append p (out.2.take Snapshot.headerSize),
        fs.append p (out.2.drop Snapshot.headerSize)]) made fun written after =>
          Spares p made after ∧ (written = .ok () → after p = some out.2) := by
      apply (hfs.yields_append hp (hempty rfl) _).bind
      rintro (e | ⟨⟩) first ⟨hfirst, hpart⟩
      · exact .pure ⟨hfirst, fun hout => by cases hout⟩
      · apply (hfs.yields_append hp (hpart rfl) _).bind
        rintro (e | ⟨⟩) second ⟨hsecond, hwhole⟩
        · exact .pure ⟨hfirst.trans hsecond, fun hout => by cases hout⟩
        · refine .pure ⟨hfirst.trans hsecond, fun _ => ?_⟩
          rw [hwhole rfl, List.nil_append, List.take_append_drop]
    apply hparts.bind
    rintro (e | ⟨⟩) written ⟨hwritten, hwhole⟩
    · refine (yields_abandon hfs hp _).imp ?_
      rintro _ _ ⟨rfl, hspares⟩
      exact hfails ((hmade.trans hwritten).trans hspares)
    · apply (hfs.yields_close hp).bind
      rintro (e | ⟨⟩) _ rfl
      · apply (hfs.yields_remove hp).bind
        intro _ _ hspares
        exact .pure (hfails ((hmade.trans hwritten).trans hspares))
      · refine .pure ⟨hmade.trans hwritten, fun _ _ => ⟨out.2, ?_, hwhole rfl⟩⟩
        rw [snapshot?, hsnapshot]
        rfl

/-- A file that was to be replaced is gone, and the one that was to take its place still has its
own name. The file that is gone was set aside, or removed. -/
structure Stranded (source target aside : Bytes)
    (files after : Bytes → Option Bytes) : Prop where
  gone : after target = none
  kept : after source = files source
  aside : after aside = files target ∨ after aside = files aside

/-- If a file cannot be put in place of another one, then nothing has changed for that one, or
it is gone. -/
theorem yields_replaceFile (hfs : fs.Honest v) (hp : p ∈ v.names) (hq : q ∈ v.names)
    (hb : q ++ ".bak" ∈ v.names) (hpq : p ≠ q) (hbp : q ++ ".bak" ≠ p) (hbq : q ++ ".bak" ≠ q) :
    Yields v (replaceFile fs p q) files fun out after => ∀ e, out = .error e →
      after q = files q ∨ Stranded p q (q ++ ".bak") files after := by
  apply (hfs.rename hp hq).bind
  rintro _ _ (⟨⟨e, rfl⟩, rfl⟩ | ⟨rfl, -⟩)
  · apply (hfs.remove hq).bind
    rintro _ _ (⟨⟨e', rfl⟩, rfl⟩ | ⟨rfl, rfl⟩)
    · -- the old file cannot be removed, so it is set aside
      apply (hfs.rename hq hb).bind
      rintro _ _ (⟨⟨e'', rfl⟩, rfl⟩ | ⟨rfl, old, hold, rfl⟩)
      · exact .pure fun _ _ => .inl rfl
      · apply (hfs.rename hp hq).bind
        rintro _ _ (⟨⟨e'', rfl⟩, rfl⟩ | ⟨rfl, -⟩)
        · apply (hfs.rename hb hq).bind
          rintro _ _ (⟨-, rfl⟩ | ⟨-, old', hold', rfl⟩)
          · refine .pure fun _ _ => .inr ⟨?_, ?_, .inl ?_⟩
            · rw [Function.update_of_ne hbq.symm, Function.update_self]
            · rw [Function.update_of_ne hbp.symm, Function.update_of_ne hpq]
            · rw [Function.update_self, hold]
          · -- it was put back
            rw [Function.update_self] at hold'
            cases hold'
            refine .pure fun _ _ => .inl ?_
            rw [Function.update_self, hold]
        · apply (hfs.remove hb).bind
          intro _ _ _
          refine .pure fun _ h => ?_
          cases h
    · -- the old file is removed for good before the last try
      refine (hfs.rename hp hq).imp ?_
      rintro _ _ (⟨-, rfl⟩ | ⟨rfl, -⟩) e' h
      · refine .inr ⟨?_, ?_, .inr ?_⟩
        · rw [Function.update_self]
        · rw [Function.update_of_ne hpq]
        · rw [Function.update_of_ne hbq]
      · cases h
  · refine .pure fun _ h => ?_
    cases h

/-- The last snapshot is gone, set aside or removed, and the new one stands complete under its
temporary name. -/
structure Interrupted (c : Checkpointer) (nonce : Bytes) (s : Store)
    (files after : Bytes → Option Bytes) : Prop where
  gone : after c.path = none
  complete : ∃ raw, c.snapshot? nonce s = some raw ∧ after (c.temporary c.second) = some raw
  aside : after c.asidePath = files c.path ∨ after c.asidePath = files c.asidePath

theorem yields_checkpoint (hfs : fs.Honest v) (hnames : insert c.asidePath c.names ⊆ v.names) :
    Yields v (c.checkpoint fs nonce s reason) files fun out after => ∀ e, out.1 = .error e →
      out.2 = c ∧
      (after c.path = files c.path ∨
        reason ≠ .emergency ∧ (∃ why, e = .replacing why) ∧
        c.Interrupted nonce s files after) := by
  obtain ⟨haside, hnames⟩ := Set.insert_subset_iff.1 hnames
  unfold checkpoint
  split
  · apply Yields.bind (Q := fun _ after => Spares c.emergencyPath files after)
    · apply (yields_writeFile hfs (hnames c.emergencyPath_mem)).bind
      rintro (e | count) _ ⟨hspares, -⟩
      · exact .pure hspares
      · exact .pure hspares
    · intro out after hspares
      exact .pure fun _ _ => ⟨rfl, .inl (hspares _ c.emergencyPath_ne_path.symm)⟩
  · rename_i hreason
    apply (yields_writeFile hfs (hnames (c.temporary_mem c.second))).bind
    rintro (e | count) written ⟨hwritten, hsnapshot⟩
    · exact .pure fun _ _ => ⟨rfl, .inl (hwritten _ (c.temporary_ne_path _).symm)⟩
    obtain ⟨raw, hraw, htemporary⟩ := hsnapshot count rfl
    apply (hfs.yields_remove (hnames (c.temporary_mem !c.second))).bind
    intro _ cleared hcleared
    -- until the snapshot is put in place only temporary files have changed
    have hkept {q : Bytes} (hq : ∀ second, q ≠ c.temporary second) : cleared q = files q :=
      (hcleared q (hq _)).trans (hwritten q (hq _))
    have hpath := hkept fun second => (c.temporary_ne_path second).symm
    apply (yields_replaceFile hfs (hnames (c.temporary_mem _)) (hnames c.path_mem) haside
      (c.temporary_ne_path _) (c.asidePath_ne_temporary _) c.asidePath_ne_path).bind
    rintro (why | ⟨⟩) after hafter
    · refine .pure fun e he => ⟨rfl, ?_⟩
      cases he
      rcases hafter why rfl with hsame | hstranded
      · exact .inl (hsame.trans hpath)
      · refine .inr ⟨hreason, ⟨why, rfl⟩, hstranded.gone, ⟨raw, hraw, ?_⟩, ?_⟩
        · rw [hstranded.kept, hcleared _ (c.temporary_ne_not _), htemporary]
        · exact hstranded.aside.imp (fun h => h.trans hpath) fun h =>
            h.trans (hkept c.asidePath_ne_temporary)
    · refine .pure fun e he => ?_
      cases he

/-- Whatever is refused, a checkpoint that fails leaves the last snapshot as it was, or it has
come to putting the new one in its place and leaves that complete under its temporary name. -/
theorem checkpoint_failed {t t' : φ} {c' : Checkpointer} {e : CheckpointError}
    (hfs : fs.Honest v) (hnames : insert c.asidePath c.names ⊆ v.names) (hready : v.ready t)
    (h : c.checkpoint fs nonce s reason t = ((.error e, c'), t')) :
    v.ready t' ∧ c' = c ∧ (v.content t' c.path = v.content t c.path ∨
      reason ≠ .emergency ∧ (∃ why, e = .replacing why) ∧
      c.Interrupted nonce s (v.content t) (v.content t')) := by
  obtain ⟨haside, hmem⟩ := Set.insert_subset_iff.1 hnames
  obtain ⟨after, hafter, hout⟩ := yields_checkpoint hfs hnames t ⟨hready, fun _ _ => rfl⟩
  rw [h] at hafter hout
  obtain ⟨hc, hfile⟩ := hout e rfl
  rw [← hafter.content (hmem c.path_mem)] at hfile
  refine ⟨hafter.ready, hc, hfile.imp_right fun hlost => ⟨hlost.1, hlost.2.1, ?_⟩⟩
  obtain ⟨hgone, hcomplete, hset⟩ := hlost.2.2
  constructor
  · rw [hafter.content (hmem c.path_mem), hgone]
  · rw [hafter.content (hmem (c.temporary_mem _))]
    exact hcomplete
  · rw [hafter.content haside]
    exact hset

/-- A checkpointer for the file `locks`. -/
def locksFile : Checkpointer := .new "locks" ⟨0⟩ .none none

def olderLocks : FileTree := FileTree.put ⟨.empty⟩ ["locks"] (.file [7])

/-- The new snapshot is written. Then it cannot take the place of the last one, neither before
nor after that one is removed. -/
def lateRefusals : List Bool := [true, true, true, true, true, false, true, false]

theorem names_locksFile :
    insert locksFile.asidePath locksFile.names ⊆ FileTree.flat.withSigns.names := by
  intro p hp
  simp only [names, Set.mem_insert_iff, Set.mem_singleton_iff] at hp
  rcases hp with rfl | rfl | rfl | rfl | rfl
  · exact ⟨by decide, by decide⟩
  · exact ⟨by decide, by decide⟩
  · exact ⟨by decide, by decide⟩
  · exact ⟨by decide, by decide⟩
  · exact ⟨by decide, by decide⟩

theorem ready_olderLocks (signs : List Bool) :
    FileTree.flat.withSigns.ready (olderLocks, signs) := by
  have hempty : FileTree.flat.Shows ⟨.empty⟩ fun _ => none := by
    refine ⟨fun k n hk => ?_, fun _ _ => rfl⟩
    rw [SortedMap.get?_empty] at hk
    cases hk
  exact (FileTree.shows_put hempty "locks" [7]).ready

theorem checkpoint_lateRefusals :
    ∃ e c' t', locksFile.checkpoint FileTree.system.refusing []
      (.empty .standard (.empty .memory .none)) .checkpoint
        (olderLocks, lateRefusals) = ((.error e, c'), t') ∧
      FileTree.flat.withSigns.content t' locksFile.path = none := by
  have hfails :
      (locksFile.checkpoint FileTree.system.refusing []
        (.empty .standard (.empty .memory .none)) .checkpoint
      (olderLocks, lateRefusals)).1.1.isOk = false := by decide +kernel
  have hgone : FileTree.flat.content (locksFile.checkpoint FileTree.system.refusing []
      (.empty .standard (.empty .memory .none)) .checkpoint (olderLocks, lateRefusals)).2.1
      locksFile.path = none := by
    decide +kernel
  rcases hrun : locksFile.checkpoint FileTree.system.refusing []
    (.empty .standard (.empty .memory .none)) .checkpoint
    (olderLocks, lateRefusals) with ⟨⟨e | r, c'⟩, t'⟩
  · rw [hrun] at hgone
    exact ⟨e, c', t', rfl, hgone⟩
  · rw [hrun] at hfails
    cases hfails

theorem checkpoint_failed_late :
    FileTree.system.refusing.Honest FileTree.flat.withSigns ∧
    insert locksFile.asidePath locksFile.names ⊆ FileTree.flat.withSigns.names ∧
    FileTree.flat.withSigns.ready (olderLocks, lateRefusals) ∧
    ∃ why t', locksFile.checkpoint FileTree.system.refusing []
      (.empty .standard (.empty .memory .none)) .checkpoint
        (olderLocks, lateRefusals) = ((.error (.replacing why), locksFile), t') ∧
      locksFile.Interrupted [] (.empty .standard (.empty .memory .none))
        (FileTree.flat.content olderLocks) (FileTree.flat.withSigns.content t') := by
  obtain ⟨e, c', t', hrun, hgone⟩ := checkpoint_lateRefusals
  obtain ⟨-, rfl, hfile⟩ :=
    checkpoint_failed FileTree.system_honest.refusing names_locksFile (ready_olderLocks _) hrun
  rcases hfile with hsame | ⟨-, ⟨why, rfl⟩, hinterrupted⟩
  · rw [hgone] at hsame
    cases hsame
  · exact ⟨FileTree.system_honest.refusing, names_locksFile, ready_olderLocks _, why, t', hrun,
      hinterrupted⟩

/-- A checkpoint that fails may lose the last snapshot. -/
theorem checkpoint_failed_loses :
    ¬∀ (c c' : Checkpointer) (nonce : Bytes) (s : Store) (reason : DumpReason)
      (e : CheckpointError) (t t' : FileTree × List Bool),
      insert c.asidePath c.names ⊆ FileTree.flat.withSigns.names →
      FileTree.flat.withSigns.ready t →
      c.checkpoint FileTree.system.refusing nonce s reason t = ((.error e, c'), t') →
        FileTree.flat.withSigns.content t' c.path =
          FileTree.flat.withSigns.content t c.path := by
  intro hall
  obtain ⟨e, c', t', hrun, hgone⟩ := checkpoint_lateRefusals
  have hsame := hall _ _ _ _ _ _ _ _ names_locksFile (ready_olderLocks _) hrun
  rw [hgone] at hsame
  cases hsame

end Checkpointer
end Database
end Locksmith
