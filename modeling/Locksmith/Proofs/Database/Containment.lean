import Locksmith.Proofs.Database.Forest
import Locksmith.Proofs.Database.History
import Locksmith.Proofs.Database.Loading

namespace Locksmith
namespace Database
namespace Store

variable {s s' : Store} {a b d dest : Dbref} {o : Object} {way : List Dbref}

def locationOf (s : Store) (d : Dbref) : Option Dbref := (s.get? d).map (·.location)

def contentsOf (s : Store) (d : Dbref) : List Dbref := ((s.get? d).map (·.contents)).getD []

/-- Objects stand under their own numbers and form a forest. -/
structure Arranged (s : Store) : Prop where
  numbered : s.Numbered
  forest : Forest s.locationOf s.contentsOf

theorem isSome_locationOf (s : Store) (d : Dbref) :
    (s.locationOf d).isSome = (s.get? d).isSome :=
  Option.isSome_map

theorem locationOf_of_get? (h : s.get? d = some o) : s.locationOf d = some o.location := by
  rw [locationOf, h, Option.map_some]

theorem contentsOf_of_get? (h : s.get? d = some o) : s.contentsOf d = o.contents := by
  rw [contentsOf, h, Option.map_some, Option.getD_some]

theorem locationOf_modify (s : Store) (d : Dbref) {f : Object → Object}
    (hf : ∀ o, (f o).location = o.location) :
    (s.modify d f).locationOf = s.locationOf := by
  funext a
  rw [locationOf, get?_modify, locationOf]
  split
  · rename_i had
    rw [had, Option.map_map]
    congr 1
    funext o
    exact hf o
  · rfl

theorem locationOf_dropItem (s : Store) (d item : Dbref) :
    (s.modify d (·.dropItem item)).locationOf = s.locationOf :=
  locationOf_modify s d fun _ => rfl

theorem locationOf_addItem (s : Store) (d item : Dbref) :
    (s.modify d (·.addItem item)).locationOf = s.locationOf :=
  locationOf_modify s d fun _ => rfl

theorem locationOf_relocate (s : Store) (d dest a : Dbref) :
    (s.modify d ({ · with location := dest })).locationOf a =
      if a = d then (s.locationOf d).map fun _ => dest else s.locationOf a := by
  rw [locationOf, get?_modify]
  split
  · rw [locationOf, Option.map_map, Option.map_map]
    rfl
  · rfl

theorem contentsOf_modify (s : Store) (d : Dbref) {f : Object → Object}
    (g : List Dbref → List Dbref) (hf : ∀ o, (f o).contents = g o.contents)
    (hb : (s.locationOf b).isSome) :
    (s.modify d f).contentsOf b = if b = d then g (s.contentsOf b) else s.contentsOf b := by
  rw [isSome_locationOf] at hb
  obtain ⟨o, ho⟩ := Option.isSome_iff_exists.1 hb
  rw [contentsOf, get?_modify]
  split
  · rename_i hbd
    rw [← hbd, ho, contentsOf_of_get? ho]
    exact hf o
  · rfl

theorem contentsOf_dropItem (s : Store) (d item : Dbref) (hb : (s.locationOf b).isSome) :
    (s.modify d (·.dropItem item)).contentsOf b =
      if b = d then (s.contentsOf b).filter (· ≠ item) else s.contentsOf b :=
  contentsOf_modify s d _ (fun _ => rfl) hb

theorem contentsOf_addItem (s : Store) (d item : Dbref) (hb : (s.locationOf b).isSome) :
    (s.modify d (·.addItem item)).contentsOf b = if b =
      d then s.contentsOf b ++ [item] else s.contentsOf b :=
  contentsOf_modify s d (· ++ [item]) (fun _ => rfl) hb

theorem contentsOf_relocate (s : Store) (d dest : Dbref) :
    (s.modify d ({ · with location := dest })).contentsOf = s.contentsOf := by
  funext b
  rw [contentsOf, get?_modify, contentsOf]
  split
  · rename_i hbd
    rw [hbd, Option.map_map]
    rfl
  · rfl

/-- Locks have nothing to do with places. -/
theorem Arranged.congr (h : s.Arranged) (hsame : SameUnlocked s s') : s'.Arranged := by
  have hloc : s'.locationOf = s.locationOf := by
    funext d
    exact hsame.map (fun _ => rfl) d
  have hheld : s'.contentsOf = s.contentsOf := by
    funext d
    exact congrArg (Option.getD · []) (hsame.map (fun _ => rfl) d)
  refine ⟨?_, hloc ▸ hheld ▸ h.forest⟩
  intro d o' ho'
  have hid : (s.get? d).map (·.id) = some o'.id := by
    rw [← hsame.map (fun _ => rfl) d, ho']
    rfl
  obtain ⟨o, ho, heq⟩ := Option.map_eq_some_iff.1 hid
  obtain ⟨hnumber, hsentinel⟩ := h.numbered d o ho
  exact ⟨heq.symm.trans hnumber, hsentinel⟩

theorem empty_arranged (settings : Settings) (chunks : Chunk.Store) :
    (empty settings chunks).Arranged where
  numbered _ _ h := by cases h
  forest :=
    { nowhere := rfl
      listed := fun _ _ h => by cases h
      housed := fun _ _ h => by cases h
      rooted := fun _ h => by cases h }

theorem Arranged.add (h : s.Arranged) (ho : Unplaced o) (hadd : s.add o = .ok s') :
    s'.Arranged := by
  obtain ⟨hsentinel, hfree, rfl⟩ := add_eq_ok.1 hadd
  have hget : ∀ a, { s with slots := s.slots.insert o.id (.live o) }.get? a =
      if a = o.id then some o else s.get? a := s.get?_insert o.id (.live o)
  have hnone : s.get? o.id = none := by
    rw [get?, hfree]
  constructor
  · intro d o' ho'
    rw [hget] at ho'
    split at ho'
    · rename_i hd
      cases ho'
      exact ⟨hd.symm, hd ▸ hsentinel⟩
    · exact h.numbered d o' ho'
  · apply h.forest.add (d := o.id)
    · rw [locationOf, hnone, Option.map_none]
    · intro hnothing
      rw [hnothing] at hsentinel
      cases hsentinel
    · intro a
      rw [locationOf, hget]
      split
      · rw [Option.map_some, ho.location]
      · rfl
    · intro b
      rw [contentsOf, hget]
      split
      · exact ho.contents
      · rfl

/-- Ways are no longer than there are numbers. -/
theorem length_outward (hnowhere : s.locationOf .nothing = none)
    (h : Outward s.locationOf a way) : way.length ≤ s.slots.size := by
  have hsub : way ⊆ s.slots.keys := by
    intro x hx
    rw [SortedMap.mem_keys]
    have hsome := h.present x hx
    rw [isSome_locationOf, get?_eq_bind] at hsome
    exact Option.isSome_of_isSome_bind hsome
  calc way.length
      ≤ s.slots.keys.length := (List.subperm_of_subset (h.nodup hnowhere) hsub).length_le
    _ = s.slots.size := List.length_map _

/-- The search for an object on the way outwards finds it, if it is not cut short. -/
theorem meets_of_outward (hnowhere : s.locationOf .nothing = none)
    (h : Outward s.locationOf a way) (d : Dbref)
    {fuel : Nat} (hfuel : way.length < fuel) : s.meets d fuel a = decide (d ∈ way) := by
  induction h generalizing fuel with
  | nowhere ha =>
    obtain ⟨fuel, rfl⟩ := Nat.exists_eq_succ_of_ne_zero (Nat.ne_zero_of_lt hfuel)
    rw [meets, if_pos ha]
    rfl
  | @inside a b way hloc _ ih =>
    obtain ⟨fuel, rfl⟩ := Nat.exists_eq_succ_of_ne_zero (Nat.ne_zero_of_lt hfuel)
    have hne : a ≠ .nothing := by
      rintro rfl
      rw [hnowhere] at hloc
      cases hloc
    obtain ⟨o, ho, rfl⟩ := Option.map_eq_some_iff.1 hloc
    rw [meets, if_neg hne, ho]
    by_cases had : a = d
    · rw [if_pos had, had]
      exact (decide_eq_true List.mem_cons_self).symm
    · rw [if_neg had]
      dsimp only
      rw [ih (Nat.lt_of_succ_lt_succ hfuel), decide_eq_decide, List.mem_cons]
      exact (or_iff_right (Ne.symm had)).symm

theorem locationOf_move (h : s.move d dest = .ok s') (a : Dbref) :
    s'.locationOf a = if a = d then some dest else s.locationOf a := by
  obtain ⟨o, ho, -, -, rfl⟩ := move_eq_ok h
  rw [locationOf_addItem, locationOf_relocate, locationOf_dropItem, locationOf_of_get? ho,
    Option.map_some]

theorem contentsOf_move (h : s.move d dest = .ok s') (ho : s.get? d = some o)
    (hb : (s.locationOf b).isSome) :
    s'.contentsOf b =
      (if b = o.location then (s.contentsOf b).filter (· ≠ d) else s.contentsOf b) ++ if b =
        dest then [d] else [] := by
  obtain ⟨o', ho', -, -, rfl⟩ := move_eq_ok h
  cases ho.symm.trans ho'
  have hmoved :
      (((s.modify o.location (·.dropItem d)).modify d ({ · with location := dest })).locationOf
        b).isSome := by
    rw [locationOf_relocate, locationOf_dropItem]
    split
    · rename_i hbd
      rw [← hbd, Option.isSome_map]
      exact hb
    · exact hb
  rw [contentsOf_addItem _ dest d hmoved, contentsOf_relocate,
    contentsOf_dropItem _ o.location d hb]
  split
  · rfl
  · exact (List.append_nil _).symm

/-- A move succeeds if it leads somewhere and not into the object itself. -/
theorem Arranged.exists_move_iff (h : s.Arranged) (ho : s.get? d = some o) :
    (∃ s', s.move d dest = .ok s') ↔
      (dest = .nothing ∨ (s.locationOf dest).isSome) ∧
        ∀ way, Outward s.locationOf dest way → d ∉ way := by
  have hmeets {way : List Dbref} (hway : Outward s.locationOf dest way) :
      s.meets d (s.slots.size + 1) dest = decide (d ∈ way) :=
    meets_of_outward h.forest.nowhere hway d
      (Nat.lt_succ_of_le (length_outward h.forest.nowhere hway))
  constructor
  · rintro ⟨s', hmove⟩
    obtain ⟨-, -, hdest, hmet, -⟩ := move_eq_ok hmove
    rw [← isSome_locationOf] at hdest
    refine ⟨hdest, fun way hway => ?_⟩
    rw [hmeets hway] at hmet
    exact of_decide_eq_false hmet
  · rintro ⟨hdest, hclear⟩
    obtain ⟨way, hway⟩ : ∃ way, Outward s.locationOf dest way := by
      rcases hdest with hnothing | hthere
      · exact ⟨[], .nowhere hnothing⟩
      · exact h.forest.rooted dest hthere
    have hvalid : ¬(dest ≠ .nothing ∧ (s.get? dest).isNone) := by
      rintro ⟨hne, hnone⟩
      rcases hdest with hnothing | hthere
      · exact hne hnothing
      · rw [isSome_locationOf, Option.isNone_iff_eq_none.1 hnone] at hthere
        cases hthere
    rw [Store.move, ho]
    dsimp only
    rw [if_neg hvalid, hmeets hway, decide_eq_false (hclear way hway)]
    exact ⟨_, rfl⟩

theorem Arranged.move (h : s.Arranged) (hmove : s.move d dest = .ok s') : s'.Arranged := by
  obtain ⟨o, ho, hdest, -, heq⟩ := move_eq_ok hmove
  rw [← isSome_locationOf] at hdest
  constructor
  · have hdropped := h.numbered.modify o.location (f := (·.dropItem d)) fun _ => rfl
    have hmoved := hdropped.modify d (f := ({ · with location := dest })) fun _ => rfl
    rw [heq]
    exact hmoved.modify dest fun _ => rfl
  · exact h.forest.move (locationOf_of_get? ho) hdest ((h.exists_move_iff ho).1 ⟨s', hmove⟩).2
      (locationOf_move hmove) fun _ => contentsOf_move hmove ho

theorem emptied_spec (s : Store) (contents : List Dbref) :
    (∀ a,
      (contents.foldl (fun s c => s.modify c ({ · with location := .nothing })) s).locationOf
          a =
        if a ∈ contents then (s.locationOf a).map fun _ => .nothing else s.locationOf a) ∧
    (contents.foldl (fun s c => s.modify c ({ · with location := .nothing })) s).contentsOf =
      s.contentsOf ∧
    (s.Numbered → Numbered
      (contents.foldl (fun s c => s.modify c ({ · with location := .nothing })) s)) := by
  induction contents generalizing s with
  | nil => exact ⟨fun _ => rfl, rfl, id⟩
  | cons c rest ih =>
    obtain ⟨hloc, hheld, hnumbered⟩ := ih (s.modify c ({ · with location := .nothing }))
    refine ⟨?_, ?_, ?_⟩
    · intro a
      rw [List.foldl_cons, hloc, locationOf_relocate]
      by_cases hac : a = c
      · subst hac
        rw [if_pos rfl, if_pos List.mem_cons_self, Option.map_map]
        split
        · rfl
        · rfl
      · rw [if_neg hac]
        simp only [List.mem_cons, hac, false_or]
    · rw [List.foldl_cons, hheld, contentsOf_relocate]
    · intro h
      exact hnumbered (h.modify c fun _ => rfl)

theorem Arranged.retire (h : s.Arranged) (ho : s.get? d = some o) : (s.retire o).Arranged := by
  obtain ⟨rfl, -⟩ := h.numbered d o ho
  have hdropped := h.numbered.modify o.location (f := (·.dropItem o.id)) fun _ => rfl
  obtain ⟨hloc, hheld, hnumbered⟩ :=
    emptied_spec (s.modify o.location (·.dropItem o.id)) o.contents
  rw [Store.retire]
  generalize o.contents.foldl _ _ = s₂ at hloc hheld hnumbered ⊢
  have hget : ∀ a, { s₂ with slots := s₂.slots.insert o.id .retired }.get? a =
      if a = o.id then none else s₂.get? a := s₂.get?_insert o.id .retired
  constructor
  · intro d o' ho'
    rw [hget] at ho'
    split at ho'
    · cases ho'
    · exact hnumbered hdropped d o' ho'
  · apply h.forest.remove (locationOf_of_get? ho)
    · intro a
      rw [contentsOf_of_get? ho, locationOf, hget]
      by_cases ha : a = o.id
      · rw [if_pos ha, if_pos ha, Option.map_none]
      · rw [if_neg ha, if_neg ha]
        change s₂.locationOf a = _
        rw [hloc, locationOf_dropItem]
        split
        · rename_i hmem
          -- what is listed is there
          have hid : (s.locationOf o.id).isSome := by
            rw [locationOf_of_get? ho]
            rfl
          rw [← contentsOf_of_get? ho, h.forest.mem_held hid] at hmem
          rw [hmem, Option.map_some]
        · rfl
    · intro b hne hb
      rw [contentsOf, hget, if_neg hne]
      change s₂.contentsOf b = _
      rw [hheld, contentsOf_dropItem _ o.location o.id hb]

/-- Location and contents agree, only objects lie anywhere, and every way outwards ends, so that
a search along it need not be cut short. -/
structure Contained (s : Store) : Prop where
  valid : ∀ d, s.isValid d = (s.get? d).isSome
  once : ∀ a b oa ob, s.get? a = some oa → s.get? b = some ob →
    ob.contents.count a = if oa.location = b then 1 else 0
  carries : ∀ a b ob, s.get? b = some ob → (s.carries b a = true ↔ a ∈ ob.contents)
  housed : ∀ a o, s.get? a = some o → o.location = .nothing ∨ s.isValid o.location = true
  listed : ∀ b o a, s.get? b = some o → a ∈ o.contents → s.isValid a = true
  rooted : ∀ a, a = .nothing ∨ s.isValid a = true → ∃ way, Outward s.locationOf a way
  searched : ∀ a way, Outward s.locationOf a way → ∀ d fuel, s.slots.size < fuel →
    s.meets d fuel a = decide (d ∈ way)

theorem Arranged.contained (h : s.Arranged) : s.Contained := by
  have hvalid (d : Dbref) : s.isValid d = (s.get? d).isSome := by
    rw [isValid]
    rcases hget : s.get? d with _ | o
    · exact Bool.and_false _
    · rw [(h.numbered d o hget).2]
      rfl
  have hsome {d : Dbref} {o : Object} (ho : s.get? d = some o) : (s.locationOf d).isSome := by
    rw [locationOf_of_get? ho]
    rfl
  have hmem {a b : Dbref} {ob : Object} (hb : s.get? b = some ob) :
      a ∈ ob.contents ↔ s.locationOf a = some b := by
    rw [← contentsOf_of_get? hb, h.forest.mem_held (hsome hb)]
  constructor
  · exact hvalid
  · intro a b oa ob ha hb
    have hcount := h.forest.listed a b (hsome hb)
    rw [contentsOf_of_get? hb, locationOf_of_get? ha] at hcount
    simpa only [Option.some.injEq] using hcount
  · intro a b ob hb
    rw [hmem hb, locationOf, Store.carries]
    rcases s.get? a with _ | oa
    · simp
    · simp [(h.numbered b ob hb).2]
  · intro a o ho
    rw [hvalid, ← isSome_locationOf]
    exact h.forest.housed a o.location (locationOf_of_get? ho)
  · intro b o a ho ha
    rw [hvalid, ← isSome_locationOf, (hmem ho).1 ha]
    rfl
  · rintro a (rfl | ha)
    · exact ⟨[], .nowhere rfl⟩
    · rw [hvalid, ← isSome_locationOf] at ha
      exact h.forest.rooted a ha
  · intro a way hway d fuel hfuel
    have hlength := length_outward h.forest.nowhere hway
    exact meets_of_outward h.forest.nowhere hway d (Nat.lt_of_le_of_lt hlength hfuel)

end Store

namespace Db

open Store

/-- Freeing all locks of an object keeps whatever taking its records and releasing chunks keep.
-/
theorem freeAllLocks_keeps {p : Store → Prop} {d : Dbref}
    (htake : ∀ s, p s → p (s.modify d ({ · with locks := .empty })))
    (hrelease : ∀ s r, p s → p (s.releaseChunk r)) : Ensures p (freeAllLocks d) fun _ => p := by
  refine .bind (r := fun _ => p) (.step ?_ fun _ _ h _ => h) ?_ fun _ _ h => h
  · intro s ls s' h hstep
    unfold takeLocks at hstep
    split at hstep
    · cases hstep
    · cases hstep
      exact htake s h
  · intro ls
    refine (Ensures.forIn (fun _ => p) (fun _ => p) ls ?_).imp (fun _ h => h) ?_
    · intro l rest
      exact .store_bind fun s h => .putStore fun _ _ => hrelease s l.ref h
    · rintro (_ | _) s h
      · exact h
      · exact h

theorem recycle_arranged (d : Dbref) : Ensures Arranged (recycle d) fun _ => Arranged := by
  refine .bind (r := fun _ => Arranged) (freeAllLocks_keeps ?_ ?_) ?_ fun _ _ h => h
  · exact fun s h => h.congr (.modify s d fun _ => rfl)
  · exact fun s r h => h.congr (.releaseChunk s r)
  · intro _
    refine .change ?_ fun _ _ h _ => h
    intro s s' h hs'
    rcases ho : s.get? d with _ | o
    · rw [ho] at hs'
      cases hs'
    · rw [ho] at hs'
      cases hs'
      exact h.retire ho

theorem arranged_loadInvariant : LoadInvariant fun _ => Arranged where
  mono _ _ _ h := h
  add _ _ _ _ h ho _ hadd := h.add ho hadd
  move _ _ _ _ _ h hmove := h.move hmove
  setLock _ d name code creator flags := by
    refine .of_forall fun s h => ?_
    exact (setLock_relocked d name code creator flags).imp (fun _ heq => heq) fun _ _ hs =>
      h.congr hs.sameUnlocked
  addChannel _ _ _ h := h.congr fun _ => rfl

end Db

/-- Something that is done to the places of objects. Objects are added as they are made. -/
inductive Relocation where
  | add (o : Object) (unplaced : Unplaced o)
  | move (d dest : Dbref)
  | recycle (d : Dbref)

namespace Relocation

open Store

def perform (σ : Session) : Relocation → Session
  | add o _ => ((Db.change (·.add o)).run.run σ).2
  | move d dest => ((Db.change (·.move d dest)).run.run σ).2
  | recycle d => ((Db.recycle d).run.run σ).2

def performAll (σ : Session) (ops : List Relocation) : Session := ops.foldl perform σ

def opened (settings : Settings) (chunks : Chunk.Store) : Option Bytes → Session
  | none => ⟨.empty settings chunks, []⟩
  | some source => ((Db.loadText source).run.run ⟨.empty settings chunks, []⟩).2

theorem perform_arranged {σ : Session} (h : σ.store.Arranged) (op : Relocation) :
    (op.perform σ).store.Arranged := by
  cases op with
  | add o unplaced =>
    have hadd : Db.Ensures Arranged (Db.change (·.add o)) fun _ => Arranged :=
      .change (fun _ _ hs hout => hs.add unplaced hout) fun _ _ hs _ => hs
    exact hadd σ h
  | move d dest =>
    have hmove : Db.Ensures Arranged (Db.change (·.move d dest)) fun _ => Arranged :=
      .change (fun _ _ hs hout => hs.move hout) fun _ _ hs _ => hs
    exact hmove σ h
  | recycle d => exact Db.recycle_arranged d σ h

theorem performAll_arranged {σ : Session} (h : σ.store.Arranged) (ops : List Relocation) :
    (performAll σ ops).store.Arranged := by
  induction ops generalizing σ with
  | nil => exact h
  | cons op rest ih => exact ih (perform_arranged h op)

theorem opened_arranged (settings : Settings) (chunks : Chunk.Store) (source : Option Bytes) :
    (opened settings chunks source).store.Arranged := by
  cases source with
  | none => exact empty_arranged settings chunks
  | some source =>
    exact Db.loadText_ensures (k := 0) Db.arranged_loadInvariant source _
      (empty_arranged settings chunks)

/-- However objects are added, moved and recycled, in a new database or in a loaded one: an
object is listed once where it lies and nowhere else, it lies nowhere or in an object, and
outwards from it one comes to an end. A move that fails changes nothing. -/
theorem performAll_contained (settings : Settings) (chunks : Chunk.Store)
    (source : Option Bytes) (ops : List Relocation) :
    (performAll (opened settings chunks source) ops).store.Contained ∧
      ∀ d dest e,
        (performAll (opened settings chunks source) ops).store.move d dest = .error e →
        ((move d dest).perform (performAll (opened settings chunks source) ops)).store =
          (performAll (opened settings chunks source) ops).store := by
  refine ⟨(performAll_arranged (opened_arranged settings chunks source) ops).contained, ?_⟩
  intro d dest e hmove
  generalize performAll (opened settings chunks source) ops = σ at hmove ⊢
  have hfails :
      Db.Ensures (· = σ.store) (Db.change (·.move d dest)) fun _ s => s = σ.store := by
    refine .change ?_ fun _ _ hs _ => hs
    rintro s s' rfl hout
    rw [hmove] at hout
    cases hout
  exact hfails σ rfl

def nesting : List Relocation :=
  [.add (.new 1 1) ⟨rfl, rfl⟩, .add (.new 2 1) ⟨rfl, rfl⟩, .move 2 1]

theorem performAll_contained_nesting :
    (performAll (opened .standard (.empty .memory .none) none) nesting).store.move 1 2 =
      .error (.intoItself 1) ∧
      ((move 1 2).perform
        (performAll (opened .standard (.empty .memory .none) none) nesting)).store =
        (performAll (opened .standard (.empty .memory .none) none) nesting).store := by
  have hmove :
      (performAll (opened .standard (.empty .memory .none) none) nesting).store.move 1 2 =
      .error (.intoItself 1) := rfl
  exact ⟨hmove, (performAll_contained .standard (.empty .memory .none) none nesting).2 1 2
    (.intoItself 1) hmove⟩

end Relocation
end Database
end Locksmith
