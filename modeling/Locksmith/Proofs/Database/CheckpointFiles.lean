import Locksmith.Database.Checkpoint
import Locksmith.Proofs.Database.SnapshotCanonical
import Locksmith.Proofs.Files.Willing

namespace Locksmith
namespace Database

open FileSystem

variable {φ : Type} {fs : FileSystem (StateM φ)} {v : FileView φ}

namespace Checkpointer

variable {c : Checkpointer} {nonce : Bytes} {s : Store} {p : Bytes}
  {files : Bytes → Option Bytes} {P : (Bytes → Option Bytes) → Prop} {last : Option Bytes}
  {reason : DumpReason}

def names (c : Checkpointer) : Set Bytes :=
  {c.path, c.temporary false, c.temporary true, c.emergencyPath}

theorem path_mem (c : Checkpointer) : c.path ∈ c.names := Or.inl rfl

theorem temporary_mem (c : Checkpointer) (second : Bool) : c.temporary second ∈ c.names := by
  cases second with
  | false => exact Or.inr (Or.inl rfl)
  | true => exact Or.inr (Or.inr (Or.inl rfl))

theorem emergencyPath_mem (c : Checkpointer) : c.emergencyPath ∈ c.names :=
  Or.inr (Or.inr (Or.inr rfl))

theorem temporary_ne_path (c : Checkpointer) (second : Bool) : c.temporary second ≠ c.path := by
  cases second with
  | false => exact List.append_right_eq_self.not.2 (by decide)
  | true => exact List.append_right_eq_self.not.2 (by decide)

theorem temporary_ne_not (c : Checkpointer) (second : Bool) :
    c.temporary second ≠ c.temporary !second := by
  cases second with
  | false => exact (List.append_right_inj _).not.2 (by decide)
  | true => exact (List.append_right_inj _).not.2 (by decide)

theorem emergencyPath_ne_path (c : Checkpointer) : c.emergencyPath ≠ c.path :=
  List.append_right_eq_self.not.2 (by decide)

theorem emergencyPath_ne_temporary (c : Checkpointer) (second : Bool) :
    c.emergencyPath ≠ c.temporary second := by
  cases second with
  | false => exact (List.append_right_inj _).not.2 (by decide)
  | true => exact (List.append_right_inj _).not.2 (by decide)

def snapshot? (c : Checkpointer) (nonce : Bytes) (s : Store) : Option Bytes :=
  (s.writeSnapshot nonce c.compression c.key).toOption.map (·.2)

theorem isSome_snapshot? (c : Checkpointer) (nonce : Bytes) (s : Store) :
    (c.snapshot? nonce s).isSome = (s.writeSnapshot nonce c.compression c.key).isOk := by
  rw [snapshot?, Option.isSome_map]
  cases s.writeSnapshot nonce c.compression c.key with
  | error e => rfl
  | ok out => rfl

/-- The file is what it should be, and there is no temporary one. -/
def Settled (c : Checkpointer) (files : Bytes → Option Bytes) (last : Option Bytes) : Prop :=
  files c.path = last ∧ ∀ second, files (c.temporary second) = none

theorem abandon_follows (fs : FileSystem (StateM φ)) (p : Bytes) (e : CheckpointError) :
    Follows (abandon fs.watched p e) (abandon fs p e) :=
  (Follows.watch _).bind fun _ => (Follows.watch _).bind fun _ => .pure _

theorem writeFile_follows (fs : FileSystem (StateM φ)) (c : Checkpointer) (nonce : Bytes)
    (s : Store) (p : Bytes) :
    Follows (c.writeFile fs.watched nonce s p) (c.writeFile fs nonce s p) := by
  apply (Follows.watch _).bind
  intro created
  cases created with
  | error e => exact .pure _
  | ok =>
    cases s.writeSnapshot nonce c.compression c.key with
    | error e => exact abandon_follows fs p _
    | ok out =>
      have hparts : Follows (inTurn [fs.watched.append p (out.2.take Snapshot.headerSize),
          fs.watched.append p (out.2.drop Snapshot.headerSize)])
          (inTurn [fs.append p (out.2.take Snapshot.headerSize),
          fs.append p (out.2.drop Snapshot.headerSize)]) := by
        apply (Follows.watch _).bind
        intro first
        cases first with
        | error e => exact .pure _
        | ok =>
          apply (Follows.watch _).bind
          intro second
          cases second with
          | error e => exact .pure _
          | ok => exact .pure _
      apply hparts.bind
      intro written
      cases written with
      | error e => exact abandon_follows fs p _
      | ok =>
        apply (Follows.watch _).bind
        intro closed
        cases closed with
        | error e => exact (Follows.watch _).bind fun _ => .pure _
        | ok => exact .pure _

theorem replaceFile_follows (fs : FileSystem (StateM φ)) (p q : Bytes) :
    Follows (replaceFile fs.watched p q) (replaceFile fs p q) := by
  apply (Follows.watch _).bind
  intro renamed
  cases renamed with
  | ok => exact .pure _
  | error e =>
    apply (Follows.watch _).bind
    intro removed
    cases removed with
    | ok => exact .watch _
    | error e' =>
      apply (Follows.watch _).bind
      intro aside
      cases aside with
      | error e'' => exact .pure _
      | ok =>
        apply (Follows.watch _).bind
        intro again
        cases again with
        | ok => exact (Follows.watch _).bind fun _ => .pure _
        | error e'' => exact (Follows.watch _).bind fun _ => .pure _

theorem checkpoint_follows (fs : FileSystem (StateM φ)) (c : Checkpointer) (nonce : Bytes)
    (s : Store) (reason : DumpReason) :
    Follows (c.checkpoint fs.watched nonce s reason) (c.checkpoint fs nonce s reason) := by
  unfold checkpoint
  by_cases hreason : reason = .emergency
  · rw [if_pos hreason, if_pos hreason]
    have hdump :
        Follows (c.dumpInEmergency fs.watched nonce s) (c.dumpInEmergency fs nonce s) := by
      apply (writeFile_follows fs c nonce s c.emergencyPath).bind
      intro written
      cases written with
      | error e => exact .pure _
      | ok count => exact .pure _
    exact hdump.bind fun _ => .pure _
  · rw [if_neg hreason, if_neg hreason]
    apply (writeFile_follows fs c nonce s _).bind
    intro written
    cases written with
    | error e => exact .pure _
    | ok count =>
      apply (Follows.watch _).bind
      intro _
      apply (replaceFile_follows fs _ _).bind
      intro replaced
      cases replaced with
      | error e => exact .pure _
      | ok => exact .pure _

theorem leads_writeFile_error (hfs : fs.Willing v) (hp : p ∈ v.names)
    (hP : ∀ value, P (Function.update files p value))
    {e : Error} (h : s.writeSnapshot nonce c.compression c.key = .error e) :
    Leads v P (c.writeFile fs.watched nonce s p) files fun out after =>
      out = .error (.taking e) ∧ after = Function.update files p none := by
  apply (hfs.leads_create hp (hP _)).bind
  rintro _ _ ⟨rfl, rfl⟩
  simp only [h]
  apply (hfs.leads_close hp (hP _)).bind
  rintro _ _ ⟨-, rfl⟩
  apply (hfs.leads_remove hp (by rw [Function.update_idem]; exact hP _)).bind
  rintro _ _ rfl
  exact .pure ⟨rfl, Function.update_idem _ _ _⟩

/-- A snapshot is written in two parts. -/
theorem leads_writeFile_ok (hfs : fs.Willing v) (hp : p ∈ v.names)
    (hP : ∀ value, P (Function.update files p value))
    {count : Nat} {raw : Bytes}
    (h : s.writeSnapshot nonce c.compression c.key = .ok (count, raw)) :
    Leads v P (c.writeFile fs.watched nonce s p) files fun out after =>
      out = .ok count ∧ after = Function.update files p (some raw) := by
  apply (hfs.leads_create hp (hP _)).bind
  rintro _ _ ⟨rfl, rfl⟩
  simp only [h]
  have happend : Leads v P (inTurn [fs.watched.append p (raw.take Snapshot.headerSize),
      fs.watched.append p (raw.drop Snapshot.headerSize)]) (Function.update files p (some []))
      fun out after => out = .ok () ∧ after = Function.update files p (some raw) := by
    apply (hfs.leads_append hp (Function.update_self _ _ _) _
      (by rw [Function.update_idem]; exact hP _)).bind
    rintro _ _ ⟨rfl, rfl⟩
    apply (hfs.leads_append hp (Function.update_self _ _ _) _
      (by simp only [Function.update_idem]; exact hP _)).bind
    rintro _ _ ⟨rfl, rfl⟩
    refine .pure ⟨rfl, ?_⟩
    rw [Function.update_idem, Function.update_idem, List.nil_append, List.take_append_drop]
  apply happend.bind
  rintro _ _ ⟨rfl, rfl⟩
  apply (hfs.leads_close hp (hP _)).bind
  rintro _ _ ⟨rfl, rfl⟩
  exact .pure ⟨rfl, rfl⟩

theorem leads_dumpInEmergency (hfs : fs.Willing v) (hnames : c.names ⊆ v.names)
    (hP : ∀ value, P (Function.update files c.emergencyPath value)) :
    Leads v P (c.dumpInEmergency fs.watched nonce s) files fun out after =>
      out.isOk = (c.snapshot? nonce s).isSome ∧ ∃ value,
        after = Function.update files c.emergencyPath value := by
  have hp := hnames c.emergencyPath_mem
  cases h : s.writeSnapshot nonce c.compression c.key with
  | error e =>
    apply (leads_writeFile_error hfs hp hP h).bind
    rintro _ _ ⟨rfl, rfl⟩
    exact .pure ⟨by rw [snapshot?, h]; rfl, none, rfl⟩
  | ok out =>
    apply (leads_writeFile_ok hfs hp hP h).bind
    rintro _ _ ⟨rfl, rfl⟩
    exact .pure ⟨by rw [snapshot?, h]; rfl, some out.2, rfl⟩

theorem leads_replaceFile (hfs : fs.Willing v) {q : Bytes} (hp : p ∈ v.names) (hq : q ∈ v.names)
    (hpq : p ≠ q) {raw : Bytes} (hraw : files p = some raw)
    (hP : P (Function.update (Function.update files p none) q (some raw))) :
    Leads v P (replaceFile fs.watched p q) files fun out after =>
      out = .ok () ∧ after = Function.update (Function.update files p none) q (some raw) := by
  apply (hfs.leads_rename hp hq hpq hraw hP).bind
  rintro _ _ ⟨rfl, rfl⟩
  exact .pure ⟨rfl, rfl⟩

def next (c : Checkpointer) (nonce : Bytes) (s : Store) (reason : DumpReason)
    (last : Option Bytes) : Option Bytes :=
  if reason = .emergency then last else (c.snapshot? nonce s).or last

theorem next_of_untouched (c : Checkpointer)
    (h : reason = .emergency ∨ c.snapshot? nonce s = none) :
    c.next nonce s reason last = last := by
  unfold next
  rcases h with hreason | hnone
  · rw [if_pos hreason]
  · rw [hnone, Option.none_or, ite_self]

/-- A call succeeds if there is a snapshot, and leaves the files settled. -/
structure Ended (c : Checkpointer) (nonce : Bytes) (s : Store) (next : Option Bytes)
    (out : Except CheckpointError Log.Record × Checkpointer)
    (after : Bytes → Option Bytes) : Prop where
  result : out.1.isOk = (c.snapshot? nonce s).isSome
  checkpointer : ∃ second saved, out.2 = { c with second, saved }
  settled : c.Settled after next

theorem Settled.leads_emergency (hfs : fs.Willing v) (hnames : c.names ⊆ v.names)
    (h : c.Settled files last) (nonce : Bytes) (s : Store) :
    Leads v (· c.path = last) (c.checkpoint fs.watched nonce s .emergency) files
      (c.Ended nonce s last) := by
  have hkeep (value : Option Bytes) :
      Function.update files c.emergencyPath value c.path = last :=
    (Function.update_of_ne c.emergencyPath_ne_path.symm _ _).trans h.1
  apply (leads_dumpInEmergency hfs hnames hkeep).bind
  rintro out _ ⟨hout, value, rfl⟩
  refine .pure ⟨hout, ⟨c.second, c.saved, rfl⟩, hkeep value, ?_⟩
  intro second
  rw [Function.update_of_ne (c.emergencyPath_ne_temporary second).symm, h.2]

theorem Settled.leads_failure (hfs : fs.Willing v) (hnames : c.names ⊆ v.names)
    (h : c.Settled files last) (hreason : reason ≠ .emergency) {e : Error}
    (hsnapshot : s.writeSnapshot nonce c.compression c.key = .error e) :
    Leads v (· c.path = last) (c.checkpoint fs.watched nonce s reason) files
      (c.Ended nonce s last) := by
  have hkeep (value : Option Bytes) :
      Function.update files (c.temporary c.second) value c.path = last :=
    (Function.update_of_ne (c.temporary_ne_path _).symm _ _).trans h.1
  unfold checkpoint
  rw [if_neg hreason]
  apply (leads_writeFile_error hfs (hnames (c.temporary_mem _)) hkeep hsnapshot).bind
  rintro _ _ ⟨rfl, rfl⟩
  refine .pure ⟨?_, ⟨c.second, c.saved, rfl⟩, hkeep none, ?_⟩
  · rw [snapshot?, hsnapshot]
    rfl
  · intro second
    rw [Function.update_apply, h.2, ite_self]

/-- The new file takes the place of the last one in a single step. -/
theorem Settled.leads_success (hfs : fs.Willing v) (hnames : c.names ⊆ v.names)
    (h : c.Settled files last) (hreason : reason ≠ .emergency) {count : Nat} {raw : Bytes}
    (hsnapshot : s.writeSnapshot nonce c.compression c.key = .ok (count, raw)) :
    Leads v (fun f => f c.path = last ∨ f c.path = some raw)
      (c.checkpoint fs.watched nonce s reason) files (c.Ended nonce s (some raw)) := by
  have hkeep (value : Option Bytes) :
      Function.update files (c.temporary c.second) value c.path = last :=
    (Function.update_of_ne (c.temporary_ne_path _).symm _ _).trans h.1
  have htemporary := hnames (c.temporary_mem c.second)
  let written := Function.update files (c.temporary c.second) (some raw)
  have hother : Function.update written (c.temporary !c.second) none c.path = last :=
    (Function.update_of_ne (c.temporary_ne_path _).symm _ _).trans (hkeep _)
  have hraw :
      Function.update written (c.temporary !c.second) none (c.temporary c.second) =
        some raw := by
    rw [Function.update_of_ne (c.temporary_ne_not _)]
    exact Function.update_self _ _ _
  unfold checkpoint
  rw [if_neg hreason]
  apply (leads_writeFile_ok hfs htemporary (fun value => Or.inl (hkeep value)) hsnapshot).bind
  rintro _ _ ⟨rfl, rfl⟩
  apply (hfs.leads_remove (hnames (c.temporary_mem !c.second)) (Or.inl hother)).bind
  rintro _ _ rfl
  apply (leads_replaceFile hfs htemporary (hnames c.path_mem) (c.temporary_ne_path _) hraw
    (Or.inr (Function.update_self _ _ _))).bind
  rintro _ _ ⟨rfl, rfl⟩
  refine .pure ⟨?_, ⟨!c.second, true, rfl⟩, Function.update_self _ _ _, ?_⟩
  · rw [snapshot?, hsnapshot]
    rfl
  · intro second
    rw [Function.update_of_ne (c.temporary_ne_path _)]
    by_cases hsecond : second = c.second
    · rw [hsecond, Function.update_self]
    · rw [Bool.eq_not.2 hsecond, Function.update_of_ne (c.temporary_ne_not _).symm,
        Function.update_self]

/-- One call: until the new snapshot is in its place, the file stays as it was. -/
theorem Settled.leads_checkpoint (hfs : fs.Willing v) (hnames : c.names ⊆ v.names)
    (h : c.Settled files last) (nonce : Bytes) (s : Store) (reason : DumpReason) :
    Leads v (fun f => f c.path = last ∨ f c.path = c.next nonce s reason last)
      (c.checkpoint fs.watched nonce s reason) files
      (c.Ended nonce s (c.next nonce s reason last)) := by
  unfold next
  by_cases hreason : reason = .emergency
  · rw [if_pos hreason, hreason]
    exact (h.leads_emergency hfs hnames nonce s).mono fun _ => Or.inl
  · rw [if_neg hreason]
    cases hsnapshot : s.writeSnapshot nonce c.compression c.key with
    | error e =>
      have hnone : c.snapshot? nonce s = none := by rw [snapshot?, hsnapshot]; rfl
      rw [hnone, Option.none_or]
      exact (h.leads_failure hfs hnames hreason hsnapshot).mono fun _ => Or.inl
    | ok out =>
      have hsome : c.snapshot? nonce s = some out.2 := by rw [snapshot?, hsnapshot]; rfl
      rw [hsome, Option.some_or]
      exact h.leads_success hfs hnames hreason hsnapshot

end Checkpointer

/-- A call for a checkpoint: on which database, how it ended, and the states that the files went
through. -/
structure CheckpointCall (φ : Type) where
  store : Store
  nonce : Bytes
  reason : DumpReason
  result : Except CheckpointError Log.Record
  passed : List φ

/-- What a call has left in the file: the whole snapshot, if it was no emergency and succeeded.
-/
def Checkpointer.saved? (c : Checkpointer) (call : CheckpointCall φ) : Option Bytes :=
  if call.reason ≠ .emergency ∧
    call.result.isOk then c.snapshot? call.nonce call.store else none

/-- What the last of some calls that has left a snapshot in the file has left there. -/
def Checkpointer.lastSaved (c : Checkpointer) (calls : List (CheckpointCall φ)) :
    Option Bytes :=
  (calls.filterMap c.saved?).getLast?

/-- A database, its checkpointer, the files and all calls so far. -/
structure Desk (φ : Type) where
  store : Store
  checkpointer : Checkpointer
  files : φ
  calls : List (CheckpointCall φ)

/-- What happens next: anything at all to the database, or a checkpoint. -/
inductive Turn where
  | work (f : Store → Store)
  | checkpoint (nonce : Bytes) (reason : DumpReason)

namespace Desk

variable {c : Checkpointer} {desk : Desk φ} {turns : List Turn}

def call (fs : FileSystem (StateM φ)) (desk : Desk φ) (nonce : Bytes)
    (reason : DumpReason) : Desk φ :=
  let out := desk.checkpointer.checkpoint fs nonce desk.store reason desk.files
  let passed :=
    (desk.checkpointer.checkpoint fs.watched nonce desk.store reason (desk.files, [])).2.2
  ⟨desk.store, out.1.2, out.2, desk.calls ++ [⟨desk.store, nonce, reason, out.1.1, passed⟩]⟩

def take (fs : FileSystem (StateM φ)) (desk : Desk φ) : Turn → Desk φ
  | .work f => { desk with store := f desk.store }
  | .checkpoint nonce reason => desk.call fs nonce reason

def takeAll (fs : FileSystem (StateM φ)) : Desk φ → List Turn → Desk φ := List.foldl (take fs)

/-- The call succeeded if there was a snapshot, and all the time the file was the last one or
the new one. -/
def Correct (v : FileView φ) (c : Checkpointer) (before : List (CheckpointCall φ))
    (call : CheckpointCall φ) : Prop :=
  call.result.isOk = (c.snapshot? call.nonce call.store).isSome ∧
    ∀ t ∈ call.passed, v.content t c.path = c.lastSaved before ∨
      v.content t c.path = c.lastSaved (before ++ [call])

/-- What holds after every turn. -/
structure Sound (v : FileView φ) (c : Checkpointer) (desk : Desk φ) : Prop where
  checkpointer : ∃ second saved, desk.checkpointer = { c with second, saved }
  files : ∃ files, v.Shows desk.files files ∧ c.Settled files (c.lastSaved desk.calls)
  calls : ∀ before call, before ++ [call] <+: desk.calls → Correct v c before call

theorem lastSaved_append (c : Checkpointer) (calls : List (CheckpointCall φ))
    (call : CheckpointCall φ) :
    c.lastSaved (calls ++ [call]) = (c.saved? call).or (c.lastSaved calls) := by
  unfold Checkpointer.lastSaved
  rw [List.filterMap_append, List.getLast?_append, List.filterMap_cons]
  cases c.saved? call with
  | none => rfl
  | some raw => rfl

/-- What counts as saved is what takes the place of the last file. -/
theorem saved?_or (c : Checkpointer) {call : CheckpointCall φ}
    (h : call.result.isOk = (c.snapshot? call.nonce call.store).isSome) (last : Option Bytes) :
    (c.saved? call).or last = c.next call.nonce call.store call.reason last := by
  unfold Checkpointer.saved? Checkpointer.next
  rw [h]
  by_cases hreason : call.reason = .emergency
  · rw [if_neg (fun hand => hand.1 hreason), if_pos hreason, Option.none_or]
  · rw [if_neg hreason]
    cases c.snapshot? call.nonce call.store with
    | none => rw [ite_self]
    | some raw => rw [if_pos ⟨hreason, rfl⟩]

theorem Sound.work (h : Sound v c desk) (f : Store → Store) :
    Sound v c { desk with store := f desk.store } :=
  ⟨h.checkpointer, h.files, h.calls⟩

theorem Sound.call (hfs : fs.Willing v) (hnames : c.names ⊆ v.names) (h : Sound v c desk)
    (nonce : Bytes) (reason : DumpReason) : Sound v c (desk.call fs nonce reason) := by
  obtain ⟨second, saved, hc⟩ := h.checkpointer
  obtain ⟨files, hshows, hsettled⟩ := h.files
  -- the fields in which the checkpointer has changed have no part in its names and in its
  -- snapshots
  have hleads := Checkpointer.Settled.leads_checkpoint (c := { c with second, saved }) hfs
    hnames hsettled nonce desk.store reason (desk.files, []) hshows
  obtain ⟨out, t, more, files', hrun, ht, ⟨hok, ⟨second', saved', hc'⟩, hsettled'⟩, hmore⟩ :=
    hleads
  let last : CheckpointCall φ := ⟨desk.store, nonce, reason, out.1, more⟩
  have hdesk : desk.call fs nonce reason = ⟨desk.store, out.2, t, desk.calls ++ [last]⟩ := by
    rw [Desk.call, hc,
      ← Checkpointer.checkpoint_follows fs _ nonce desk.store reason (desk.files, []), hrun]
    rfl
  have hlast :
      c.lastSaved (desk.calls ++ [last]) =
        c.next nonce desk.store reason (c.lastSaved desk.calls) := by
    rw [lastSaved_append]
    exact saved?_or c hok _
  rw [hdesk]
  refine ⟨⟨second', saved', hc'⟩, ⟨files', ht, ?_⟩, ?_⟩
  · rw [hlast]
    exact hsettled'
  · intro before call hcall
    rcases List.prefix_concat_iff.1 hcall with heq | hbefore
    · obtain ⟨rfl, hsame⟩ := List.append_inj' heq rfl
      obtain rfl : call = last := List.singleton_inj.1 hsame
      refine ⟨hok, ?_⟩
      intro u hu
      obtain ⟨f, hf, hpath⟩ := hmore u hu
      rw [hlast, hf.content (hnames c.path_mem)]
      exact hpath
    · exact h.calls before call hbefore

theorem Sound.takeAll (hfs : fs.Willing v) (hnames : c.names ⊆ v.names) (h : Sound v c desk)
    (turns : List Turn) : Sound v c (desk.takeAll fs turns) := by
  induction turns generalizing desk with
  | nil => exact h
  | cons turn rest ih =>
    cases turn with
    | work f => exact ih (h.work f)
    | checkpoint nonce reason => exact ih (h.call hfs hnames nonce reason)

/-- The file of a checkpointer, after any number of turns and at every moment of every call. -/
theorem takeAll_lastSaved (hfs : fs.Willing v) (path : Bytes) (interval : Duration)
    (compression : Compression) (key : Option Bytes)
    (hnames : (Checkpointer.new path interval compression key).names ⊆ v.names)
    (s : Store) (t : φ)
    (ht : v.ready t) (hpath : v.content t path = none)
    (hfirst : v.content t (path ++ ".#0#") = none)
    (hsecond : v.content t (path ++ ".#1#") = none) (turns : List Turn) :
    let c := Checkpointer.new path interval compression key
    let desk := takeAll fs ⟨s, c, t, []⟩ turns
    v.content desk.files path = c.lastSaved desk.calls ∧
      v.content desk.files (path ++ ".#0#") = none ∧
      v.content desk.files (path ++ ".#1#") = none ∧
      ∀ before call, before ++ [call] <+: desk.calls →
        call.result.isOk = (call.store.writeSnapshot call.nonce compression key).isOk ∧
        (call.reason = .emergency ∨ call.result.isOk = false →
          ∀ u ∈ call.passed, v.content u path = c.lastSaved before) ∧
        ∀ count raw, call.store.writeSnapshot call.nonce compression key = .ok (count, raw) →
          ∀ u ∈ call.passed, v.content u path = c.lastSaved before ∨
            v.content u path = some raw := by
  intro c desk
  have hstart : Sound v c ⟨s, c, t, []⟩ := by
    refine ⟨⟨false, false, rfl⟩, ⟨v.content t, ⟨ht, Set.eqOn_refl _ _⟩, hpath, ?_⟩, ?_⟩
    · intro second
      cases second with
      | false => exact hfirst
      | true => exact hsecond
    · intro before call hcall
      simp at hcall
  obtain ⟨-, ⟨files, hshows, hfile, htemporary⟩, hcalls⟩ := hstart.takeAll hfs hnames turns
  refine ⟨(hshows.content (hnames c.path_mem)).trans hfile, ?_, ?_, ?_⟩
  · exact (hshows.content (hnames (c.temporary_mem false))).trans (htemporary false)
  · exact (hshows.content (hnames (c.temporary_mem true))).trans (htemporary true)
  · intro before call hcall
    obtain ⟨hresult, hpassed⟩ := hcalls before call hcall
    rw [lastSaved_append, saved?_or c hresult] at hpassed
    refine ⟨hresult.trans (c.isSome_snapshot? _ _), ?_, ?_⟩
    · intro huntouched u hu
      rw [c.next_of_untouched (huntouched.imp_right fun hfailed => ?_)] at hpassed
      · exact or_self_iff.1 (hpassed u hu)
      · rw [← Option.not_isSome_iff_eq_none, ← hresult, hfailed]
        exact Bool.false_ne_true
    · intro count raw hraw u hu
      refine (hpassed u hu).elim Or.inl fun hnext => ?_
      by_cases hreason : call.reason = .emergency
      · rw [c.next_of_untouched (Or.inl hreason)] at hnext
        exact Or.inl hnext
      · rw [Checkpointer.next, if_neg hreason, Checkpointer.snapshot?] at hnext
        refine Or.inr (hnext.trans ?_)
        change ((call.store.writeSnapshot call.nonce compression key).toOption.map (·.2)).or _ =
          _
        rw [hraw]
        rfl

def lose (s : Store) : Store := { s with chunks := .empty .memory .none }

def interrupted : Desk FileTree :=
  takeAll FileTree.system
    ⟨(Reached.lockedAs "Use").store, .new "locks" ⟨0⟩ .none none, .empty, []⟩
    [.checkpoint [] .checkpoint, .work lose, .checkpoint [] .shutdown,
      .checkpoint [] .emergency]

theorem takeAll_lastSaved_interrupted :
    ∃ count raw, (Reached.lockedAs "Use").store.writeSnapshot [] .none none = .ok (count, raw) ∧
      FileTree.flat.content interrupted.files "locks" = some raw ∧
      FileTree.flat.content interrupted.files "locks.#0#" = none ∧
      FileTree.flat.content interrupted.files "locks.#1#" = none := by
  have hreached := Reached.lockedAs_reached "Use"
  obtain ⟨count, raw, hraw⟩ :=
    (hreached.writeSnapshot_canonical hreached (fun _ => rfl) (fun _ _ _ _ _ => Iff.rfl) [] []
      .none).2 (by decide)
  have hlost :
      ((lose (Reached.lockedAs "Use").store).writeSnapshot [] .none none).isOk = false := by
    decide +kernel
  have hnames : (Checkpointer.new "locks" ⟨0⟩ .none none).names ⊆ FileTree.flat.names := by
    rintro p (rfl | rfl | rfl | rfl)
    · exact ⟨by decide, by decide⟩
    · exact ⟨by decide, by decide⟩
    · exact ⟨by decide, by decide⟩
    · exact ⟨by decide, by decide⟩
  have hready : FileTree.flat.ready .empty := by
    intro k n hk
    cases hk
  obtain ⟨hfile, hfirst, hsecond, hcalls⟩ := takeAll_lastSaved FileTree.system_willing "locks"
    ⟨0⟩ .none none hnames (Reached.lockedAs "Use").store .empty hready rfl rfl rfl
    [.checkpoint [] .checkpoint, .work lose, .checkpoint [] .shutdown,
      .checkpoint [] .emergency]
  refine ⟨count, raw, hraw, hfile.trans ?_, hfirst, hsecond⟩
  obtain ⟨one, two, three, hthree, ⟨hstore, hnonce, hreason⟩, ⟨hstore', hnonce'⟩, hemergency⟩ :
      ∃ one two three, interrupted.calls = [one, two, three] ∧
        (one.store = (Reached.lockedAs "Use").store ∧ one.nonce = [] ∧
          one.reason = .checkpoint) ∧
        (two.store = lose (Reached.lockedAs "Use").store ∧ two.nonce = []) ∧
        three.reason = .emergency :=
    ⟨_, _, _, rfl, ⟨rfl, rfl, rfl⟩, ⟨rfl, rfl⟩, rfl⟩
  have hone := (hcalls [] one ⟨[two, three], hthree.symm⟩).1
  have htwo := (hcalls [one] two ⟨[three], hthree.symm⟩).1
  rw [hstore, hnonce, hraw] at hone
  rw [hstore', hnonce', hlost] at htwo
  have hsaved : (Checkpointer.new "locks" ⟨0⟩ .none none).saved? one = some raw := by
    rw [Checkpointer.saved?, if_pos ⟨by rw [hreason]; decide, hone⟩, Checkpointer.snapshot?,
      hstore, hnonce]
    exact congrArg (fun out => Option.map Prod.snd out.toOption) hraw
  refine (congrArg (Checkpointer.lastSaved _) hthree).trans ?_
  rw [Checkpointer.lastSaved, List.filterMap_cons_some hsaved, List.filterMap_cons_none,
    List.filterMap_cons_none]
  · rfl
  · exact if_neg fun h => h.1 hemergency
  · exact if_neg fun h => Bool.false_ne_true (htwo.symm.trans h.2)

end Desk
end Database
end Locksmith
