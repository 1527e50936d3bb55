import Locksmith.Proofs.Database.Plain
import Locksmith.Proofs.Lock.RoundTrip

namespace Locksmith
namespace Database

/-- One object is written to lie in another. -/
def LiesIn (l : List ObjectSpec) (a b : Dbref) : Prop :=
  ∃ spec ∈ l, spec.id = a ∧ spec.location = some b

/-- Objects have numbers of their own, lie nowhere or in one another, and none contains itself.
-/
structure Coherent (l : List ObjectSpec) : Prop where
  numbers : ∀ spec ∈ l, 0 ≤ spec.id.num
  distinct : (l.map (·.id)).Nodup
  housed : ∀ spec ∈ l, ∀ d, spec.location = some d → d = .nothing ∨ d ∈ l.map (·.id)
  acyclic : ∀ d, ¬Relation.TransGen (LiesIn l) d d

/-- The objects are listed in another order, and so are the attributes of each. -/
def Rearranged (l l' : List ObjectSpec) : Prop :=
  ∃ mid, l.Perm mid ∧ List.Forall₂ ObjectSpec.Reordered mid l'

theorem ObjectSpec.location_of_place {spec : ObjectSpec} (h : spec.place ≠ .nothing) :
    spec.location = some spec.place := by
  rcases hlocation : spec.location with _ | d
  · rw [place, hlocation] at h
    exact absurd rfl h
  · rw [place, hlocation]
    rfl

theorem map_eq_of_forall₂ {α β : Type} {R : α → α → Prop} {f : α → β} {l l' : List α}
    (h : List.Forall₂ R l l') (hf : ∀ a b, a ∈ l → R a b → f a = f b) : l.map f = l'.map f := by
  induction h with
  | nil => rfl
  | cons hfirst _ ih =>
    rw [List.map_cons, List.map_cons, hf _ _ List.mem_cons_self hfirst,
      ih fun a b ha => hf a b (List.mem_cons_of_mem _ ha)]

namespace Rearranged

variable {l l' : List ObjectSpec} {spec : ObjectSpec}

theorem symm (h : Rearranged l l') : Rearranged l' l := by
  obtain ⟨mid, hperm, hreordered⟩ := h
  obtain ⟨mid', hreordered', hperm'⟩ := List.perm_comp_forall₂ hperm hreordered
  exact ⟨mid', hperm'.symm, .flip (hreordered'.imp fun _ _ hsame => hsame.symm)⟩

theorem replace (before after : List ObjectSpec) {spec' : ObjectSpec}
    (h : spec.Reordered spec') :
    Rearranged (before ++ spec :: after) (before ++ spec' :: after) := by
  have hrefl (l : List ObjectSpec) : List.Forall₂ ObjectSpec.Reordered l l :=
    List.forall₂_same.2 fun spec _ => .refl spec
  exact ⟨_, .refl _, List.rel_append (hrefl before) (.cons h (hrefl after))⟩

theorem map_plain (h : Rearranged l l') :
    (l.map ObjectSpec.plain).Perm (l'.map ObjectSpec.plain) := by
  obtain ⟨mid, hperm, hreordered⟩ := h
  rw [← map_eq_of_forall₂ hreordered fun _ _ _ hsame => hsame.plain]
  exact hperm.map _

/-- What does not depend on the order of attributes holds of all objects. -/
theorem forall_mem {p : ObjectSpec → Prop}
    (hp : ∀ spec spec', spec.Reordered spec' → p spec → p spec')
    (h : Rearranged l l') (hl : ∀ spec ∈ l, p spec) : ∀ spec ∈ l', p spec := by
  obtain ⟨mid, hperm, hreordered⟩ := h
  have hmid : ∀ spec ∈ mid, p spec := fun spec hspec => hl spec (hperm.mem_iff.2 hspec)
  clear hperm
  induction hreordered with
  | nil => exact List.forall_mem_nil _
  | cons hfirst _ ih =>
    obtain ⟨hspec, hrest⟩ := List.forall_mem_cons.1 hmid
    exact List.forall_mem_cons.2 ⟨hp _ _ hfirst hspec, ih hrest⟩

end Rearranged

section
variable {loc : Dbref → Option Dbref} {a b : Dbref} {way : List Dbref}

/-- Further out the way is shorter. -/
theorem Outward.of_transGen (hnowhere : loc .nothing = none)
    (h : Relation.TransGen (fun a b => loc a = some b) a b)
    (hway : Outward loc a way) : ∃ rest, Outward loc b rest ∧ rest.length < way.length := by
  have hstep {a b : Dbref} {way : List Dbref} (h : loc a = some b) (hway : Outward loc a way) :
      ∃ rest, Outward loc b rest ∧ rest.length < way.length := by
    cases hway with
    | nowhere ha =>
      rw [ha, hnowhere] at h
      cases h
    | inside hloc further =>
      rw [h] at hloc
      cases hloc
      exact ⟨_, further, Nat.lt_succ_self _⟩
  induction h with
  | single h => exact hstep h hway
  | tail _ h ih =>
    obtain ⟨rest, hrest, hlength⟩ := ih
    obtain ⟨rest', hrest', hlength'⟩ := hstep h hrest
    exact ⟨rest', hrest', Nat.lt_trans hlength' hlength⟩

/-- What is met on the way outwards is reached from one object to the next. -/
theorem Outward.reaches (hnowhere : loc .nothing = none) (h : Outward loc a way) {x : Dbref}
    (hx : x ∈ way) :
    Relation.ReflTransGen (fun a b => loc a = some b ∧ b ≠ .nothing) a x := by
  induction h with
  | nowhere => cases hx
  | @inside a b way hloc further ih =>
    rcases List.mem_cons.1 hx with rfl | hx
    · exact .refl
    · refine .head ⟨hloc, ?_⟩ (ih hx)
      rintro rfl
      rw [further.eq hnowhere (.nowhere rfl)] at hx
      cases hx

end

namespace Store

variable {s s' : Store} {spec : ObjectSpec} {all done rest : List ObjectSpec}

/-- Of all objects those in `done` were placed, in this order. -/
structure Halfway (all done : List ObjectSpec) (s : Store) : Prop where
  arranged : s.Arranged
  there : ∀ d, (s.locationOf d).isSome ↔ d ∈ all.map (·.id)
  placed : ∀ spec ∈ done, s.locationOf spec.id = some spec.place
  waiting : ∀ spec ∈ all, spec.id ∉ done.map (·.id) → s.locationOf spec.id = some .nothing
  contents : ∀ d ∈ all.map (·.id), s.contentsOf d = (done.filter (·.place = d)).map (·.id)

theorem Halfway.start {settings : Settings} {chunks : Chunk.Store}
    (h : (empty settings chunks).addAll all = .ok s) : Halfway all [] s := by
  have hadded := added_of_addAll h
  constructor
  · exact hadded.arranged (empty_arranged settings chunks)
  · intro d
    rw [hadded.location]
    split
    · rename_i hd
      exact iff_of_true rfl hd
    · rename_i hd
      exact iff_of_false (fun h => by cases h) hd
  · exact List.forall_mem_nil _
  · intro spec hspec _
    rw [hadded.location, if_pos (List.mem_map_of_mem hspec)]
  · intro d hd
    rw [hadded.contents, if_pos hd]
    rfl

theorem Halfway.ne_nothing (h : Halfway all done s) {d : Dbref} (hd : d ∈ all.map (·.id)) :
    d ≠ .nothing :=
  h.arranged.forest.ne_nothing ((h.there d).2 hd)

theorem Halfway.placed_one (h : Halfway all done s) (hspec : spec ∈ all)
    (hwaiting : spec.id ∉ done.map (·.id)) (hplace : s.placeWritten spec = .ok s') :
    s'.Arranged ∧
    (∀ a, s'.locationOf a = if a = spec.id then some spec.place else s.locationOf a) ∧
      ∀ b ∈ all.map (·.id),
        s'.contentsOf b = s.contentsOf b ++ if b = spec.place then [spec.id] else [] := by
  have hnowhere := h.waiting spec hspec hwaiting
  rcases placeWritten_eq_ok.1 hplace with ⟨hnothing, rfl⟩ | ⟨-, hmove⟩
  · refine ⟨h.arranged, fun a => ?_, fun b hb => ?_⟩
    · split
      · rename_i ha
        rw [ha, hnowhere, hnothing]
      · rfl
    · rw [if_neg (hnothing ▸ h.ne_nothing hb), List.append_nil]
  · obtain ⟨o, ho, hlocation⟩ := Option.map_eq_some_iff.1 hnowhere
    refine ⟨h.arranged.move hmove, locationOf_move hmove, fun b hb => ?_⟩
    rw [contentsOf_move hmove ho ((h.there b).2 hb), if_neg (hlocation ▸ h.ne_nothing hb)]

theorem Halfway.step (h : Halfway all done s) (hspec : spec ∈ all)
    (hwaiting : spec.id ∉ done.map (·.id)) (hplace : s.placeWritten spec = .ok s') :
    Halfway all (done ++ [spec]) s' := by
  obtain ⟨harranged, hlocation, hcontents⟩ := h.placed_one hspec hwaiting hplace
  have hother {other : ObjectSpec} (hmem : other ∈ done) : other.id ≠ spec.id :=
    fun hsame => hwaiting (hsame ▸ List.mem_map_of_mem hmem)
  constructor
  · exact harranged
  · intro d
    rw [hlocation, ← h.there]
    split
    · rename_i hd
      rw [hd, h.waiting spec hspec hwaiting]
      exact iff_of_true rfl rfl
    · rfl
  · intro other hmem
    rw [hlocation]
    rcases List.mem_append.1 hmem with hmem | hmem
    · rw [if_neg (hother hmem), h.placed other hmem]
    · rw [List.mem_singleton.1 hmem, if_pos rfl]
  · intro other hmem hnot
    rw [List.map_append, List.mem_append, not_or] at hnot
    rw [hlocation, if_neg, h.waiting other hmem hnot.1]
    exact fun hsame => hnot.2 (List.mem_singleton.2 hsame)
  · intro b hb
    rw [hcontents b hb, h.contents b hb, List.filter_append, List.map_append]
    congr 1
    by_cases hplace : spec.place = b
    · rw [if_pos hplace.symm, List.filter_singleton, decide_eq_true hplace]
      rfl
    · rw [if_neg (Ne.symm hplace), List.filter_singleton, decide_eq_false hplace]
      rfl

theorem waiting_of_nodup (h : ((done ++ spec :: rest).map (·.id)).Nodup) :
    spec.id ∉ done.map (·.id) := by
  intro hmem
  rw [List.map_append, List.nodup_append] at h
  exact h.2.2 _ hmem _ List.mem_cons_self rfl

/-- Placing the objects that are left completes the world. -/
theorem Halfway.run (h : Halfway all done s) (hsub : ∀ spec ∈ rest, spec ∈ all)
    (hdistinct : ((done ++ rest).map (·.id)).Nodup) (hplace : s.placeAll rest = .ok s') :
    Halfway all (done ++ rest) s' := by
  unfold placeAll at hplace
  induction rest generalizing s done with
  | nil =>
    cases hplace
    rwa [List.append_nil]
  | cons spec rest ih =>
    obtain ⟨hspec, hsub⟩ := List.forall_mem_cons.1 hsub
    obtain ⟨mid, hfirst, hrest⟩ := foldlM_cons_eq_ok.1 hplace
    have hwaiting := waiting_of_nodup hdistinct
    rw [List.append_cons] at hdistinct ⊢
    exact ih (h.step hspec hwaiting hfirst) hsub hdistinct hrest

/-- Where an object lies it is written to lie. -/
theorem Halfway.liesIn (h : Halfway all done s) (hsub : ∀ spec ∈ done, spec ∈ all) {a b : Dbref}
    (hloc : s.locationOf a = some b) (hb : b ≠ .nothing) : LiesIn all a b := by
  obtain ⟨spec, hspec, rfl⟩ := List.mem_map.1 ((h.there a).1 (Option.isSome_of_eq_some hloc))
  by_cases hdone : spec.id ∈ done.map (·.id)
  · obtain ⟨other, hother, hsame⟩ := List.mem_map.1 hdone
    rw [← hsame, h.placed other hother] at hloc
    cases hloc
    exact ⟨other, hsub other hother, hsame, ObjectSpec.location_of_place hb⟩
  · rw [h.waiting spec hspec hdone] at hloc
    exact absurd (Option.some.inj hloc).symm hb

/-- An object can be placed if it is written to lie in an object, and not in itself. -/
theorem Halfway.exists_place (h : Halfway all done s) (hcoherent : Coherent all)
    (hsub : ∀ spec ∈ done, spec ∈ all) (hspec : spec ∈ all) :
    ∃ s', s.placeWritten spec = .ok s' := by
  by_cases hplace : spec.place = .nothing
  · exact ⟨s, placeWritten_eq_ok.2 (.inl ⟨hplace, rfl⟩)⟩
  · have hlocation := ObjectSpec.location_of_place hplace
    have hnowhere := h.arranged.forest.nowhere
    obtain ⟨o, ho⟩ : ∃ o, s.get? spec.id = some o := by
      rw [← Option.isSome_iff_exists, ← isSome_locationOf, h.there]
      exact List.mem_map_of_mem hspec
    obtain ⟨s', hmove⟩ : ∃ s', s.move spec.id spec.place = .ok s' := by
      rw [h.arranged.exists_move_iff ho]
      refine ⟨(hcoherent.housed spec hspec _ hlocation).imp_right (h.there _).2,
        fun way hway hmem => ?_⟩
      -- a way out through the object itself would be a circle in what is written
      have hreaches : Relation.ReflTransGen (LiesIn all) spec.place spec.id :=
        Relation.ReflTransGen.mono (fun _ _ hstep => h.liesIn hsub hstep.1 hstep.2) _ _
          (hway.reaches hnowhere hmem)
      exact hcoherent.acyclic spec.id (.head' ⟨spec, hspec, rfl, hlocation⟩ hreaches)
    exact ⟨s', placeWritten_eq_ok.2 (.inr ⟨hplace, hmove⟩)⟩

theorem Halfway.exists_placeAll (h : Halfway all done s) (hcoherent : Coherent all)
    (hsub : ∀ spec ∈ done ++ rest, spec ∈ all) (hdistinct : ((done ++ rest).map (·.id)).Nodup) :
    ∃ s', s.placeAll rest = .ok s' := by
  unfold placeAll
  induction rest generalizing s done with
  | nil => exact ⟨s, rfl⟩
  | cons spec rest ih =>
    have hspec : spec ∈ all := hsub spec (List.mem_append_right _ List.mem_cons_self)
    obtain ⟨mid, hfirst⟩ :=
      h.exists_place hcoherent
        (fun other hmem => hsub other (List.mem_append_left _ hmem)) hspec
    have hwaiting := waiting_of_nodup hdistinct
    rw [List.append_cons] at hsub hdistinct
    obtain ⟨s', hrest⟩ := ih (h.step hspec hwaiting hfirst) hsub hdistinct
    exact ⟨s', foldlM_cons_eq_ok.2 ⟨mid, hfirst, hrest⟩⟩

/-- A world whose objects were all placed is coherent. -/
theorem Halfway.coherent (h : Halfway all done s) (hall : ∀ spec ∈ all, spec ∈ done)
    (hdistinct : (all.map (·.id)).Nodup) : Coherent all := by
  have hnowhere := h.arranged.forest.nowhere
  have hlocation {spec : ObjectSpec} {d : Dbref} (hspec : spec ∈ all)
      (hd : spec.location = some d) :
      s.locationOf spec.id = some d := by
    rw [h.placed spec (hall spec hspec), ObjectSpec.place, hd]
    rfl
  constructor
  · intro spec hspec
    obtain ⟨o, ho, -⟩ := Option.map_eq_some_iff.1 (h.placed spec (hall spec hspec))
    have hnumber := (h.arranged.numbered spec.id o ho).2
    rw [Dbref.isSentinel, decide_eq_false_iff_not] at hnumber
    exact Int64.not_lt.1 hnumber
  · exact hdistinct
  · intro spec hspec d hd
    exact (h.arranged.forest.housed spec.id d (hlocation hspec hd)).imp_right (h.there d).1
  · intro d hcycle
    have hstep (a b : Dbref) (hlies : LiesIn all a b) : s.locationOf a = some b := by
      obtain ⟨spec, hspec, rfl, hd⟩ := hlies
      exact hlocation hspec hd
    -- each object has one way out, and along the circle it would get shorter
    have hcycle := Relation.TransGen.mono hstep d d hcycle
    obtain ⟨b, hb, -⟩ := Relation.TransGen.head'_iff.1 hcycle
    obtain ⟨way, hway⟩ := h.arranged.forest.rooted d (Option.isSome_of_eq_some hb)
    obtain ⟨rest, hrest, hshorter⟩ := hway.of_transGen hnowhere hcycle
    rw [hway.eq hnowhere hrest] at hshorter
    exact Nat.lt_irrefl _ hshorter

/-- What an object holds is listed by number if objects were placed by number. -/
theorem Halfway.increasing (h : Halfway all done s) (hdistinct : (done.map (·.id)).Nodup)
    (hsorted : done.Pairwise fun a b => a.id.num ≤ b.id.num) {d : Dbref}
    (hd : d ∈ all.map (·.id)) :
    (s.contentsOf d).Pairwise fun a b => a.num < b.num := by
  rw [h.contents d hd, List.pairwise_map]
  refine List.Pairwise.filter _ ?_
  refine (hsorted.and (List.pairwise_map.1 hdistinct)).imp fun hle => ?_
  exact Int64.lt_of_le_of_ne hle.1 fun heq => hle.2 (congrArg Dbref.mk heq)

end Store

namespace WorldFile

open Store

variable {w : WorldFile} {settings : Settings} {chunks : Chunk.Store} {σ : Session}

def load (w : WorldFile) (settings : Settings) (chunks : Chunk.Store) :
    Except LoadError Unit × Session :=
  (Db.loadWorld w).run.run ⟨.empty settings chunks, []⟩

/-- Types, flags and channels are named, and locks are sound. -/
structure WellFormed (w : WorldFile) (settings : Settings) (chunks : Chunk.Store) : Prop where
  types : ∀ spec ∈ w.objects, ∃ type, spec.readType = .ok type
  flags : ∀ spec ∈ w.objects, ∃ flags, ObjectFlags.ofNames spec.flags = .ok flags
  attributes : ∀ spec ∈ w.objects, ∀ e ∈ spec.attributes, e.2.Known
  locks : ∀ spec ∈ w.objects, ∀ e ∈ spec.locks, e.2.Sound settings.classes e.1
  channels : ∀ c ∈ w.channels, c.name ≠ []
  compression : chunks.compression.Supported

theorem inOrder_perm (w : WorldFile) : w.inOrder.Perm w.objects := List.mergeSort_perm _ _

theorem inOrder_sorted (w : WorldFile) : w.inOrder.Pairwise fun a b => a.id.num ≤ b.id.num := by
  have hsorted : w.inOrder.Pairwise fun a b => decide (a.id.num ≤ b.id.num) = true := by
    apply List.pairwise_mergeSort
    · intro a b c hab hbc
      exact decide_eq_true (Int64.le_trans (of_decide_eq_true hab) (of_decide_eq_true hbc))
    · intro a b
      rw [Bool.or_eq_true, decide_eq_true_iff, decide_eq_true_iff]
      exact Int64.le_total _ _
  exact hsorted.imp fun h => of_decide_eq_true h

/-- Sorted by number, objects with numbers of their own have one order. -/
theorem inOrder_eq {w w' : WorldFile} (hperm : w.objects.Perm w'.objects)
    (hdistinct : (w.objects.map (·.id)).Nodup) : w.inOrder = w'.inOrder := by
  refine List.Perm.eq_of_pairwise ?_ w.inOrder_sorted w'.inOrder_sorted
    (w.inOrder_perm.trans (hperm.trans w'.inOrder_perm.symm))
  intro a b ha hb hab hba
  have ha := w.inOrder_perm.mem_iff.1 ha
  have hb := hperm.mem_iff.2 (w'.inOrder_perm.mem_iff.1 hb)
  exact List.inj_on_of_nodup_map hdistinct ha hb (congrArg Dbref.mk (Int64.le_antisymm hab hba))

theorem inOrder_nodup (h : (w.objects.map (·.id)).Nodup) : (w.inOrder.map (·.id)).Nodup :=
  (w.inOrder_perm.map _).nodup_iff.2 h

theorem halfway_inOrder {s₁ s₂ : Store}
    (hadd : (Store.empty settings chunks).addAll w.objects = .ok s₁)
    (hplace : s₁.placeAll w.inOrder = .ok s₂) : Halfway w.objects w.inOrder s₂ := by
  have hdistinct := (added_of_addAll hadd).distinct
  exact (Halfway.start hadd).run (fun _ hspec => w.inOrder_perm.mem_iff.1 hspec)
    (inOrder_nodup hdistinct) hplace

/-- A world that was loaded is coherent, and its objects list what they hold by number. -/
theorem coherent_of_load (h : w.load settings chunks = (.ok (), σ)) :
    Coherent w.objects ∧ ∀ d, (σ.store.contentsOf d).Pairwise fun a b => a.num < b.num := by
  obtain ⟨s₁, s₂, hadd, hplace, hfurnish⟩ := Db.phases_of_loadWorld h
  have hdistinct := (added_of_addAll hadd).distinct
  have hhalfway := halfway_inOrder hadd hplace
  refine ⟨hhalfway.coherent (fun _ hspec => w.inOrder_perm.mem_iff.2 hspec) hdistinct,
    fun d => ?_⟩
  have hundisturbed := @Db.furnish_undisturbed s₂ w.inOrder w.channels ⟨s₂, []⟩ (.refl s₂)
  rw [hfurnish] at hundisturbed
  have hcontents : σ.store.contentsOf d = s₂.contentsOf d :=
    congrArg (Option.getD · []) (hundisturbed.same.map (fun _ => rfl) d)
  rw [hcontents]
  by_cases hd : d ∈ w.objects.map (·.id)
  · exact hhalfway.increasing (inOrder_nodup hdistinct) w.inOrder_sorted hd
  · have hnone : s₂.get? d = none := by
      rw [← Option.not_isSome_iff_eq_none, ← isSome_locationOf, hhalfway.there]
      exact hd
    rw [contentsOf, hnone]
    exact .nil

/-- A coherent world without ill-formed parts can be loaded. -/
theorem exists_load (hw : w.WellFormed settings chunks) (hc : Coherent w.objects) :
    ∃ σ, w.load settings chunks = (.ok (), σ) := by
  have hnumber (spec : ObjectSpec) (hspec : spec ∈ w.objects) : spec.id.isSentinel = false := by
    rw [Dbref.isSentinel, decide_eq_false_iff_not, Int64.not_lt]
    exact hc.numbers spec hspec
  have hbuilt : ∀ spec ∈ w.objects, ∃ o, spec.build = .ok o := fun spec hspec =>
    ObjectSpec.exists_build ⟨hnumber spec hspec, hw.types spec hspec, hw.flags spec hspec⟩
      (hw.attributes spec hspec)
  obtain ⟨s₁, hadd⟩ :=
    exists_addAll (s := .empty settings chunks) hbuilt hc.distinct fun _ _ => rfl
  have hsub : ∀ spec ∈ w.inOrder, spec ∈ w.objects := fun _ hspec =>
    w.inOrder_perm.mem_iff.1 hspec
  obtain ⟨s₂, hplace⟩ :=
    (Halfway.start hadd).exists_placeAll hc hsub (inOrder_nodup hc.distinct)
  have hkept := (added_of_addAll hadd).kept.trans (placeAll_kept hplace)
  have hhalfway := halfway_inOrder hadd hplace
  have hvalid : ∀ spec ∈ w.inOrder, s₂.isValid spec.id = true := by
    intro spec hspec
    rw [isValid, hnumber spec (hsub spec hspec), ← isSome_locationOf]
    exact (hhalfway.there spec.id).2 (List.mem_map_of_mem (hsub spec hspec))
  have hout := @Db.furnish_succeeds s₂ w.inOrder w.channels
    (fun spec hspec => hkept.1 ▸ hw.locks spec (hsub spec hspec)) hvalid
    (hkept.2 ▸ hw.compression) hw.channels
    ⟨s₂, []⟩ (.refl s₂)
  exact ⟨_, (Db.loadWorld_run hadd hplace).trans (Prod.ext hout rfl)⟩

/-- The attributes of a world that was loaded are those that its objects were built with. -/
theorem attributes_of_load (h : w.load settings chunks = (.ok (), σ)) {spec : ObjectSpec}
    (hspec : spec ∈ w.objects) :
    ∃ o o', spec.build = .ok o ∧ σ.store.get? spec.id = some o' ∧ o'.attributes = o.attributes ∧
      o'.owner = o.owner := by
  obtain ⟨s₁, s₂, hadd, hplace, hfurnish⟩ := Db.phases_of_loadWorld h
  obtain ⟨o, hbuild, ho⟩ := (get?_of_addAll hadd).1 spec hspec
  have hundisturbed := @Db.furnish_undisturbed s₂ w.inOrder w.channels ⟨s₂, []⟩ (.refl s₂)
  rw [hfurnish] at hundisturbed
  have hkept : (σ.store.get? spec.id).map (fun o => (o.attributes, o.owner)) =
      some (o.attributes, o.owner) := by
    rw [hundisturbed.same.map (fun _ => rfl) spec.id,
      map_get?_placeAll (fun _ _ _ => rfl) hplace, ho, Option.map_some]
  obtain ⟨o', ho', heq⟩ := Option.map_eq_some_iff.1 hkept
  exact ⟨o, o', hbuild, ho', congrArg Prod.fst heq, congrArg Prod.snd heq⟩

theorem known_of_load (h : w.load settings chunks = (.ok (), σ)) :
    ∀ spec ∈ w.objects, ∀ e ∈ spec.attributes, e.2.Known := by
  intro spec hspec
  obtain ⟨o, -, hbuild, -⟩ := attributes_of_load h hspec
  obtain ⟨-, -, hknown, -⟩ := ObjectSpec.build_eq_ok_iff.1 hbuild
  exact hknown

section
variable {objects objects' : List ObjectSpec} {channels : List ChannelSpec}

/-- The order of the objects makes no difference to what is loaded. -/
theorem load_of_perm (hperm : objects.Perm objects')
    (h : load ⟨objects, channels⟩ settings chunks = (.ok (), σ)) :
    load ⟨objects', channels⟩ settings chunks = (.ok (), σ) := by
  obtain ⟨s₁, s₂, hadd, hplace, hfurnish⟩ := Db.phases_of_loadWorld h
  have horder : inOrder ⟨objects, channels⟩ = inOrder ⟨objects', channels⟩ :=
    inOrder_eq hperm (added_of_addAll hadd).distinct
  rw [horder] at hplace hfurnish
  rw [load, Db.loadWorld_run (addAll_perm hperm hadd) hplace]
  exact hfurnish

theorem load_plain (hknown : ∀ spec ∈ objects, ∀ e ∈ spec.attributes, e.2.Known)
    (channels : List ChannelSpec) (settings : Settings) (chunks : Chunk.Store) :
    load ⟨objects.map ObjectSpec.plain, channels⟩ settings chunks =
      ((load ⟨objects, channels⟩ settings chunks).1,
        (load ⟨objects, channels⟩ settings chunks).2.plain) :=
  Db.loadWorld_parallel hknown channels ⟨.empty settings chunks, []⟩

/-- Rearranged, a world is loaded as well, and differs in nothing but attributes. -/
theorem exists_load_of_rearranged (hrearranged : Rearranged objects objects')
    (h : load ⟨objects, channels⟩ settings chunks = (.ok (), σ)) :
    ∃ σ', load ⟨objects', channels⟩ settings chunks = (.ok (), σ') ∧ σ'.plain = σ.plain := by
  have hknown := known_of_load h
  have hknown' := hrearranged.forall_mem (fun _ _ => ObjectSpec.Reordered.known) hknown
  have hplain := load_plain hknown channels settings chunks
  rw [h] at hplain
  have hplain' := load_of_perm hrearranged.map_plain hplain
  rw [load_plain hknown'] at hplain'
  obtain ⟨hout, hsession⟩ := Prod.mk.inj hplain'
  exact ⟨_, Prod.ext hout rfl, hsession⟩

theorem load_of_unambiguous (hrearranged : Rearranged objects objects')
    (hunambiguous : ∀ spec ∈ objects, spec.Unambiguous)
    (h : load ⟨objects, channels⟩ settings chunks = (.ok (), σ)) :
    load ⟨objects', channels⟩ settings chunks = (.ok (), σ) := by
  obtain ⟨mid, hperm, hreordered⟩ := hrearranged
  have hmid : load ⟨mid, channels⟩ settings chunks = (.ok (), σ) := load_of_perm hperm h
  have hbuild : mid.map ObjectSpec.build = objects'.map ObjectSpec.build := by
    refine map_eq_of_forall₂ hreordered fun spec spec' hspec hsame => ?_
    obtain ⟨o, -, hbuild, -⟩ := attributes_of_load hmid hspec
    rw [hbuild, hsame.build (hunambiguous spec (hperm.mem_iff.2 hspec)) hbuild]
  have hplain : mid.map ObjectSpec.plain = objects'.map ObjectSpec.plain :=
    map_eq_of_forall₂ hreordered fun _ _ _ hsame => hsame.plain
  rw [load, ← Db.loadWorld_congr hbuild hplain]
  exact hmid

theorem unambiguous_of_load (h : load ⟨objects, channels⟩ settings chunks = (.ok (), σ))
    (hall : ∀ objects', Rearranged objects objects' →
      load ⟨objects', channels⟩ settings chunks = (.ok (), σ)) :
    ∀ spec ∈ objects, spec.Unambiguous := by
  intro spec hspec
  obtain ⟨o, o₁, hbuild, ho₁, hattributes, -⟩ := attributes_of_load h hspec
  refine (ObjectSpec.forall_build_iff hbuild).1 fun attributes hperm => ?_
  obtain ⟨o', hbuild', hsame, -⟩ := ObjectSpec.exists_build_of_perm hbuild hperm
  -- the object in the place of this one is loaded with the attributes that it was built with
  obtain ⟨before, after, rfl⟩ := List.append_of_mem hspec
  have hother := hall _ (.replace before after ⟨attributes, hperm, rfl⟩)
  obtain ⟨o'', o₂, hbuild'', ho₂, hattributes', -⟩ :=
    attributes_of_load hother (List.mem_append_right _ List.mem_cons_self)
  obtain rfl : o' = o'' := Except.ok.inj (hbuild'.symm.trans hbuild'')
  obtain rfl : o₁ = o₂ := Option.some.inj (ho₁.symm.trans ho₂)
  rw [hbuild', hsame, ← hattributes', hattributes]

end

/-- The order of the objects in a world makes no difference to what is loaded. The order of the
attributes of each makes one to these only: of attributes whose names differ in case only, the
last one counts. So no order matters just if all such attributes say the same. The objects of a
world that was loaded list what they hold by number, and unless there is something ill-formed in
it a world can be loaded just if it is coherent. -/
theorem load_orders (objects : List ObjectSpec) (channels : List ChannelSpec)
    (settings : Settings) (chunks : Chunk.Store) :
    (∀ objects', objects.Perm objects' → ∀ σ,
      load ⟨objects, channels⟩ settings chunks = (.ok (), σ) ↔
        load ⟨objects', channels⟩ settings chunks = (.ok (), σ)) ∧
    (∀ objects', Rearranged objects objects' →
      ((∃ σ, load ⟨objects, channels⟩ settings chunks = (.ok (), σ)) ↔
        ∃ σ, load ⟨objects', channels⟩ settings chunks = (.ok (), σ)) ∧
      ∀ σ σ', load ⟨objects, channels⟩ settings chunks = (.ok (), σ) →
        load ⟨objects', channels⟩ settings chunks = (.ok (), σ') →
        σ'.plain = σ.plain ∧
          ∀ spec ∈ objects', ∃ o, σ'.store.get? spec.id = some o ∧
            ∀ key, o.attributes.get? key =
              (lastNamed? key spec.attributes).bind fun a => a.made? key o.owner) ∧
    (∀ σ, load ⟨objects, channels⟩ settings chunks = (.ok (), σ) →
      ((∀ objects', Rearranged objects objects' →
        load ⟨objects', channels⟩ settings chunks = (.ok (), σ)) ↔
          ∀ spec ∈ objects, spec.Unambiguous) ∧
      ∀ d o, σ.store.get? d = some o → o.contents.Pairwise fun a b => a.num < b.num) ∧
    (WellFormed ⟨objects, channels⟩ settings chunks →
      ((∃ σ, load ⟨objects, channels⟩ settings chunks = (.ok (), σ)) ↔ Coherent objects)) := by
  refine ⟨?_, ?_, ?_, ?_⟩
  · intro objects' hperm σ
    exact ⟨load_of_perm hperm, load_of_perm hperm.symm⟩
  · intro objects' hrearranged
    refine ⟨⟨?_, ?_⟩, ?_⟩
    · rintro ⟨σ, h⟩
      obtain ⟨σ', h', -⟩ := exists_load_of_rearranged hrearranged h
      exact ⟨σ', h'⟩
    · rintro ⟨σ', h'⟩
      obtain ⟨σ, h, -⟩ := exists_load_of_rearranged hrearranged.symm h'
      exact ⟨σ, h⟩
    · intro σ σ' h h'
      obtain ⟨σ'', h'', hplain⟩ := exists_load_of_rearranged hrearranged h
      obtain rfl : σ'' = σ' := congrArg Prod.snd (h''.symm.trans h')
      refine ⟨hplain, fun spec hspec => ?_⟩
      obtain ⟨o, o', hbuild, ho', hattributes, howner⟩ := attributes_of_load h' hspec
      refine ⟨o', ho', fun key => ?_⟩
      rw [hattributes, howner]
      exact ObjectSpec.get?_of_build hbuild key
  · intro σ h
    refine ⟨⟨unambiguous_of_load h,
      fun hun objects' hrearranged => load_of_unambiguous hrearranged hun h⟩, ?_⟩
    intro d o ho
    have hincreasing := (coherent_of_load h).2 d
    rwa [contentsOf_of_get? ho] at hincreasing
  · intro hw
    refine ⟨?_, exists_load hw⟩
    rintro ⟨σ, h⟩
    exact (coherent_of_load h).1

/-- The text `#true`. -/
def always : Bytes := [35, 116, 114, 117, 101]

theorem compileLoad_always (c : Lock.Compiler) (lockType : Bytes) :
    c.compileLoad always lockType = .ok (some [4, 1, 0, 0, 0, 0, 0, 0, 0, 0]) := by
  have hread :
      Parser.readOr (c.loadContext lockType) ⟨0, always, []⟩ =
        .ok (.bool 0 true, ⟨5, [], []⟩) := by
    rw [Parser.readOr, Parser.outcome_parseOr, Parser.outcome_parseAnd, Parser.outcome_parseNot]
    rfl
  exact c.compileLoad_eq (Parser.parse_of_outcome rfl hread rfl) rfl

def lockedThing (d : Dbref) (location : Option Dbref)
    (attributes : List (Bytes × AttributeSpec)) : ObjectSpec :=
  { ObjectSpec.thing attributes with
    id := d, location, locks := [("Basic", ⟨always, [], none⟩)] }

def nested (attributes : List (Bytes × AttributeSpec)) : List ObjectSpec :=
  [lockedThing 2 (some 1) [], lockedThing 1 none attributes, lockedThing 0 (some 1) []]

section
variable {attributes : List (Bytes × AttributeSpec)}

theorem nested_wellFormed (h : ∀ e ∈ attributes, e.2.Known) :
    WellFormed ⟨nested attributes, []⟩ .standard (.empty .memory .lz4) := by
  have hall {spec : ObjectSpec} (hspec : spec ∈ nested attributes) :
      ∃ d location l, spec = lockedThing d location l ∧ ∀ e ∈ l, e.2.Known := by
    simp only [nested, List.mem_cons, List.not_mem_nil, or_false] at hspec
    rcases hspec with rfl | rfl | rfl
    · exact ⟨_, _, _, rfl, List.forall_mem_nil _⟩
    · exact ⟨_, _, _, rfl, h⟩
    · exact ⟨_, _, _, rfl, List.forall_mem_nil _⟩
  constructor
  · intro spec hspec
    obtain ⟨d, location, l, rfl, -⟩ := hall hspec
    exact ⟨.thing, rfl⟩
  · intro spec hspec
    obtain ⟨d, location, l, rfl, -⟩ := hall hspec
    exact ⟨_, rfl⟩
  · intro spec hspec
    obtain ⟨d, location, l, rfl, hknown⟩ := hall hspec
    exact hknown
  · intro spec hspec
    obtain ⟨d, location, l, rfl, -⟩ := hall hspec
    exact List.forall_mem_singleton.2 ⟨⟨_, rfl⟩, _, compileLoad_always _ _, by decide⟩
  · exact List.forall_mem_nil _
  · exact .inr (.inl rfl)

theorem nested_coherent : Coherent (nested attributes) := by
  have hids : (nested attributes).map (·.id) = [2, 1, 0] := rfl
  have hlies {a b : Dbref} (h : LiesIn (nested attributes) a b) : a ≠ 1 ∧ b = 1 := by
    obtain ⟨spec, hspec, rfl, hlocation⟩ := h
    simp only [nested, List.mem_cons, List.not_mem_nil, or_false] at hspec
    rcases hspec with rfl | rfl | rfl
    · exact ⟨by decide, (Option.some.inj hlocation).symm⟩
    · cases hlocation
    · exact ⟨by decide, (Option.some.inj hlocation).symm⟩
  refine ⟨?_, ?_, ?_, ?_⟩
  · intro spec hspec
    have hid := List.mem_map_of_mem (f := (·.id)) hspec
    rw [hids] at hid
    revert hid
    generalize spec.id = d
    revert d
    decide
  · rw [hids]
    decide
  · intro spec hspec d hd
    rw [hids, (hlies ⟨spec, hspec, rfl, hd⟩).2]
    exact .inr (by decide)
  · intro d hcycle
    obtain ⟨b, hfirst, -⟩ := Relation.TransGen.head'_iff.1 hcycle
    obtain ⟨c, -, hlast⟩ := Relation.TransGen.tail'_iff.1 hcycle
    exact (hlies hfirst).1 (hlies hlast).2

end

/-- An attribute that is written in two ways stands for the same value with the same flags. -/
theorem load_orders_nested :
    let repeated : List (Bytes × AttributeSpec) :=
      [("a", ⟨"1", ["private"]⟩), ("A", ⟨"1", ["PRIVATE", "private"]⟩)]
    let rearranged := [lockedThing 1 none repeated.reverse, lockedThing 0 (some 1) [],
      lockedThing 2 (some 1) []]
    Rearranged (nested repeated) rearranged ∧ (∀ spec ∈ nested repeated, spec.Unambiguous) ∧
    ∃ σ, load ⟨nested repeated, []⟩ .standard (.empty .memory .lz4) = (.ok (), σ) ∧
      load ⟨rearranged, []⟩ .standard (.empty .memory .lz4) = (.ok (), σ) ∧
      ∀ d o, σ.store.get? d = some o → o.contents.Pairwise fun a b => a.num < b.num := by
  intro repeated rearranged
  have hknown : ∀ e ∈ repeated, e.2.Known :=
    List.forall_mem_cons.2 ⟨⟨_, rfl⟩, List.forall_mem_singleton.2 ⟨_, rfl⟩⟩
  have hrearranged : Rearranged (nested repeated) rearranged := by
    refine ⟨_, (List.perm_append_singleton _ [_, _]).symm, ?_⟩
    exact .cons ⟨_, List.reverse_perm _, rfl⟩ (List.forall₂_same.2 fun spec _ => .refl spec)
  have hunambiguous : ∀ spec ∈ nested repeated, spec.Unambiguous := by
    unfold ObjectSpec.Unambiguous AttributeSpec.Agrees
    decide
  obtain ⟨-, -, hloaded, hcoherent⟩ :=
    load_orders (nested repeated) [] .standard (.empty .memory .lz4)
  obtain ⟨σ, hσ⟩ := (hcoherent (nested_wellFormed hknown)).2 nested_coherent
  obtain ⟨horders, hincreasing⟩ := hloaded σ hσ
  exact ⟨hrearranged, hunambiguous, σ, hσ, horders.2 hunambiguous rearranged hrearranged,
    hincreasing⟩

/-- Of `a` and `A` with different values, a world is loaded with the one taken up last. -/
theorem load_order_matters :
    ¬∀ (objects objects' : List ObjectSpec) (channels : List ChannelSpec) (settings : Settings)
      (chunks : Chunk.Store) (σ : Session),
      (∀ spec ∈ objects, (spec.attributes.map (·.1)).Nodup) → Rearranged objects objects' →
      load ⟨objects, channels⟩ settings chunks = (.ok (), σ) →
        load ⟨objects', channels⟩ settings chunks = (.ok (), σ) := by
  intro h
  let ambiguous : List (Bytes × AttributeSpec) := [("a", ⟨"1", []⟩), ("A", ⟨"2", []⟩)]
  have hknown : ∀ e ∈ ambiguous, e.2.Known :=
    List.forall_mem_cons.2 ⟨⟨_, rfl⟩, List.forall_mem_singleton.2 ⟨_, rfl⟩⟩
  obtain ⟨σ, hσ⟩ := exists_load (nested_wellFormed hknown) nested_coherent
  have hunambiguous : ∀ spec ∈ nested ambiguous, spec.Unambiguous := by
    refine unambiguous_of_load hσ fun objects' hrearranged => ?_
    exact h _ objects' _ _ _ σ (by decide) hrearranged hσ
  revert hunambiguous
  unfold ObjectSpec.Unambiguous AttributeSpec.Agrees
  decide

end WorldFile
end Database
end Locksmith
