import Locksmith.Proofs.Database.History

namespace Locksmith
namespace Database

variable {s s' : Store} {d : Dbref} {o : Object} {l : LockRecord} {r : ChunkRef}
  {loose held others : List ChunkRef} {k : Nat}

namespace Store

/-- There is no lock on the object. -/
def Bare (s : Store) (d : Dbref) : Prop := ∀ key, s.record? d key = none

/-- The lock records that are gone together with their objects. -/
def stranded (s s' : Store) : List (Dbref × LockRecord) :=
  (s.objects.filter fun o => (s'.get? o.id).isNone).flatMap fun o =>
    o.locks.values.map fun l => (o.id, l)

theorem mem_stranded (hs : s.Numbered) :
    (d, l) ∈ s.stranded s' ↔ s'.get? d = none ∧ ∃ key, s.record? d key = some l := by
  simp only [stranded, List.mem_flatMap, List.mem_filter, List.mem_map, Prod.mk.injEq,
    mem_objects, SortedMap.mem_values, Option.isNone_iff_eq_none]
  constructor
  · rintro ⟨o, ⟨⟨d', ho⟩, hnone⟩, l', ⟨key, hl⟩, rfl, rfl⟩
    obtain ⟨rfl, -⟩ := hs d' o ho
    exact ⟨hnone, key, (record?_of_get? ho key).trans hl⟩
  · rintro ⟨hnone, key, hl⟩
    obtain ⟨o, ho, hl⟩ := get?_of_record? hl
    exact ⟨o, ⟨⟨d, ho⟩, (hs d o ho).1 ▸ hnone⟩, l, ⟨key, hl⟩, (hs d o ho).1, rfl⟩

theorem stranded_eq_nil (hs : s.Numbered) (hkeep : ∀ d, s'.get? d = none → s.get? d = none) :
    s.stranded s' = [] := by
  apply List.eq_nil_iff_forall_not_mem.2
  intro x hx
  obtain ⟨hnone, key, hl⟩ := (mem_stranded hs).1 hx
  obtain ⟨o, ho, -⟩ := get?_of_record? hl
  rw [hkeep _ hnone] at ho
  cases ho

/-- Objects go, and the chunks of their locks become loose. -/
theorem Owned.strand (h : s.Owned loose k) (hc : s'.chunks = s.chunks) (hnum : s'.Numbered)
    (hrec : ∀ d key, s'.get? d = none ∨ s'.record? d key = s.record? d key) :
    s'.Owned ((s.stranded s').map (·.2.ref) ++ loose) k := by
  apply h.drop hc hnum
  · have hsub : ((s.stranded s').map (·.2.ref)).Sublist s.refs := by
      rw [stranded, List.map_flatMap, refs]
      simp only [List.map_map]
      exact List.filter_sublist.flatMap _
    exact h.nodup_all.sublist hsub
  · intro d key l hl
    rcases hrec d key with hnone | hsame
    · obtain ⟨o, ho, -⟩ := get?_of_record? hl
      rw [hnone] at ho
      cases ho
    · exact hsame ▸ hl
  · intro r
    rw [List.mem_map]
    constructor
    · rintro ⟨⟨d, l⟩, hmem, rfl⟩
      obtain ⟨hnone, key, hl⟩ := (mem_stranded h.numbered).1 hmem
      exact ⟨d, key, l, hl, by rw [record?, kept?, hnone]; rfl, rfl⟩
    · rintro ⟨d, key, l, hl, hgone, rfl⟩
      rcases hrec d key with hnone | hsame
      · exact ⟨(d, l), (mem_stranded h.numbered).2 ⟨hnone, key, hl⟩, rfl⟩
      · rw [hsame, hl] at hgone
        cases hgone

/-- Objects may have been moved, and no lock was changed. -/
structure Moved (s s₁ : Store) : Prop where
  chunks : s₁.chunks = s.chunks
  numbered : s₁.Numbered
  kept : ∀ d key, s₁.kept? d key = s.kept? d key

theorem Moved.modify {s₁ : Store} (h : s.Moved s₁) (d : Dbref) {f : Object → Object}
    (hid : ∀ o, (f o).id = o.id) (hlocks : ∀ o, (f o).locks = o.locks) :
    s.Moved (s₁.modify d f) where
  chunks := (chunks_modify s₁ d f).trans h.chunks
  numbered := h.numbered.modify d hid
  kept d' key := (kept?_modify_of_locks s₁ d f hlocks d' key).trans (h.kept d' key)

theorem Moved.empty_out {s₁ : Store} (h : s.Moved s₁) (contents : List Dbref) :
    s.Moved (contents.foldl (fun s c => s.modify c ({ · with location := .nothing })) s₁) := by
  induction contents generalizing s₁ with
  | nil => exact h
  | cons c rest ih => exact ih (h.modify c (fun _ => rfl) fun _ => rfl)

theorem exists_retire_eq (hs : s.Numbered) (o : Object) :
    ∃ s₁, s.Moved s₁ ∧ s.retire o = { s₁ with slots := s₁.slots.insert o.id .retired } := by
  have hdrop :=
    Moved.modify ⟨rfl, hs, fun _ _ => rfl⟩ o.location (f := (·.dropItem o.id)) (fun _ => rfl)
      fun _ => rfl
  exact ⟨_, hdrop.empty_out o.contents, rfl⟩

theorem get?_retire (hs : s.Numbered) (o : Object) :
    (s.retire o).get? o.id = none ∧ ∀ d ≠ o.id, ∀ key,
      (s.retire o).kept? d key = s.kept? d key := by
  obtain ⟨s₁, hmoved, heq⟩ := exists_retire_eq hs o
  rw [heq]
  constructor
  · rw [get?, SortedMap.get?_insert_self]
  · intro d hd key
    rw [← hmoved.kept d key, kept?, kept?, get?, SortedMap.get?_insert_of_ne _ _ hd]
    rfl

theorem Owned.retire (h : s.Owned loose k) (o : Object) :
    (s.retire o).Owned ((s.stranded (s.retire o)).map (·.2.ref) ++ loose) k := by
  obtain ⟨hself, hother⟩ := get?_retire h.numbered o
  apply h.strand
  · obtain ⟨s₁, hmoved, heq⟩ := exists_retire_eq h.numbered o
    rw [heq]
    exact hmoved.chunks
  · obtain ⟨s₁, hmoved, heq⟩ := exists_retire_eq h.numbered o
    intro d o' ho'
    by_cases hd : d = o.id
    · rw [hd, hself] at ho'
      cases ho'
    · rw [heq, get?, SortedMap.get?_insert_of_ne _ _ hd] at ho'
      exact hmoved.numbered d o' ho'
  · intro d key
    by_cases hd : d = o.id
    · exact .inl (hd ▸ hself)
    · exact .inr (congrArg Option.join (hother d hd key))

theorem releaseChunk_record? (s : Store) (r : ChunkRef) (d : Dbref) (key : Bytes) :
    (s.releaseChunk r).record? d key = s.record? d key := by
  rw [record?, kept?, get?_releaseChunk]
  rfl

end Store

/-- What a task can count on between its steps: chunks that are its own, and objects that have
no lock unless someone puts one on them. -/
structure Stake where
  chunks : List ChunkRef
  bare : List Dbref

namespace Store

variable {puts retires : Dbref → Prop} {stake : Stake} {bare : List Dbref}

/-- The database holds what a task counts on, and the chunks of all others. -/
structure Backs (s : Store) (puts : Dbref → Prop) (stake : Stake) (others : List ChunkRef)
    (room : Nat) : Prop where
  owned : s.Owned (stake.chunks ++ others) room
  bare : ∀ d ∈ stake.bare, ¬puts d → s.Bare d

/-- A step of a task. Locks are put only on objects that allow it, and only from those, when
they are recycled, locks get lost. -/
structure Handover (puts retires : Dbref → Prop) (others : List ChunkRef) (room : Nat)
    (s : Store) (stake : Stake) (s' : Store) : Prop where
  backs : s'.Backs puts stake ((s.stranded s').map (·.2.ref) ++ others) room
  bare : ∀ d, ¬puts d → s.Bare d → s'.Bare d
  lost : ∀ x ∈ s.stranded s', puts x.1 ∧ retires x.1

/-- A step after which all objects are still there. -/
theorem Backs.hand (h : s.Backs puts stake others (k + 1))
    (hkeep : ∀ d, s'.get? d = none → s.get? d = none)
    (hbare : ∀ d, ¬puts d → s.Bare d → s'.Bare d) (howned : s'.Owned (held ++ others) k) :
    Handover puts retires others k s ⟨held, stake.bare⟩ s' := by
  have hnil := stranded_eq_nil h.owned.numbered hkeep
  constructor
  · rw [hnil]
    exact ⟨howned, fun d hd hputs => hbare d hputs (h.bare d hd hputs)⟩
  · exact hbare
  · rw [hnil]
    exact List.forall_mem_nil _

theorem Backs.keep (h : s.Backs puts stake others (k + 1)) :
    Handover puts retires others k s stake s :=
  h.hand (fun _ hd => hd) (fun _ _ hd => hd) (h.owned.mono (Nat.le_succ k))

theorem Backs.append (h : s.Backs puts stake others (k + 1)) (p : Packed) :
    Handover puts retires others k s ⟨s.chunks.next :: stake.chunks, stake.bare⟩
      { s with chunks := (s.chunks.append p).2 } :=
  h.hand (fun _ hd => hd) (fun _ _ hd => hd) (h.owned.append p)

theorem Backs.release (h : s.Backs puts ⟨r :: held, bare⟩ others (k + 1)) :
    Handover puts retires others k s ⟨held, bare⟩ (s.releaseChunk r) := by
  refine h.hand ?_ ?_ (h.owned.mono (Nat.le_succ k)).release
  · intro d hd
    rwa [get?_releaseChunk] at hd
  · intro d _ hd key
    rw [releaseChunk_record?]
    exact hd key

/-- The locks of an object are changed. -/
theorem Backs.modify (h : s.Backs puts stake others (k + 1)) (ho : s.get? d = some o)
    {f : Object → Object}
    (hf : puts d ∨ ∀ key, o.locks.get? key = none → (f o).locks.get? key = none)
    (howned : (s.modify d f).Owned (held ++ others) k) :
    Handover puts retires others k s ⟨held, stake.bare⟩ (s.modify d f) := by
  refine h.hand ?_ ?_ howned
  · intro d' hd'
    rw [get?_modify, ho] at hd'
    split at hd'
    · cases hd'
    · exact hd'
  · intro d' hputs hbare key
    rw [record?_modify ho]
    split
    · rename_i hd
      rw [hd] at hputs hbare
      exact hf.resolve_left hputs key ((record?_of_get? ho key).symm.trans (hbare key))
    · exact hbare key

theorem Backs.take (h : s.Backs puts stake others (k + 1)) (ho : s.get? d = some o)
    (name : Bytes) :
    Handover puts retires others k s
      ⟨(o.lock? name).toList.map (·.ref) ++ stake.chunks, stake.bare⟩
      (s.modify d (·.dropLock name)) := by
  apply h.modify ho
  · right
    intro key hkey
    rw [Object.dropLock, SortedMap.get?_erase, hkey, ite_self]
  · rw [List.append_assoc]
    exact (h.owned.mono (Nat.le_succ k)).take ho name

theorem Backs.install (h : s.Backs puts ⟨l.ref :: held, bare⟩ others (k + 1))
    (ho : s.get? d = some o) (hputs : puts d) :
    Handover puts retires others k s ⟨(o.lock? l.name).toList.map (·.ref) ++ held, bare⟩
      (s.modify d (·.putLock l)) := by
  apply h.modify ho (.inl hputs)
  rw [List.append_assoc]
  exact (h.owned.mono (Nat.le_succ k)).install ho

/-- All locks are taken off an object, which has none from then on. -/
theorem Backs.takeAll (h : s.Backs puts stake others (k + 1)) (ho : s.get? d = some o) :
    Handover puts retires others k s
      ⟨o.locks.values.map (·.ref) ++ stake.chunks, d :: stake.bare⟩
      (s.modify d ({ · with locks := .empty })) := by
  have hstep : Handover puts retires others k s
      ⟨o.locks.values.map (·.ref) ++ stake.chunks, stake.bare⟩
      (s.modify d ({ · with locks := .empty })) := by
    apply h.modify ho (.inr fun _ _ => rfl)
    rw [List.append_assoc]
    exact (h.owned.mono (Nat.le_succ k)).takeAll ho
  refine ⟨⟨hstep.backs.owned, ?_⟩, hstep.bare, hstep.lost⟩
  intro d' hd' hputs
  rcases List.mem_cons.1 hd' with rfl | hd'
  · intro key
    rw [record?_modify ho, if_pos rfl]
    rfl
  · exact hstep.backs.bare d' hd' hputs

/-- An object is retired. If nobody puts a lock on it, it has none. -/
theorem Backs.retire (h : s.Backs puts stake others (k + 1)) (ho : s.get? d = some o)
    (hd : d ∈ stake.bare) (hretires : retires d) :
    Handover puts retires others k s stake (s.retire o) := by
  obtain ⟨rfl, -⟩ := h.owned.numbered d o ho
  obtain ⟨hself, hother⟩ := get?_retire h.owned.numbered o
  have hbare (d : Dbref) (hbare : s.Bare d) : (s.retire o).Bare d := by
    intro key
    by_cases hne : d = o.id
    · rw [hne, record?, kept?, hself]
      rfl
    · rw [record?, hother d hne key]
      exact hbare key
  constructor
  · refine ⟨(((h.owned.mono (Nat.le_succ k)).retire o).perm ?_),
      fun d hd hputs => hbare d (h.bare d hd hputs)⟩
    exact List.perm_append_comm_assoc _ _ _
  · exact fun d _ => hbare d
  · rintro ⟨d, l⟩ hx
    obtain ⟨hnone, key, hl⟩ := (mem_stranded h.owned.numbered).1 hx
    have hsame : d = o.id := by
      by_contra hne
      obtain ⟨o', ho', -⟩ := get?_of_record? hl
      have hkept := hother d hne key
      rw [kept?, hnone, kept?, ho'] at hkept
      cases hkept
    refine ⟨?_, hsame ▸ hretires⟩
    by_contra hputs
    rw [h.bare d (hsame ▸ hd) hputs key] at hl
    cases hl

end Store

end Database
end Locksmith
