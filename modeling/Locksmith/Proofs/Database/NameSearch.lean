import Locksmith.Proofs.Database.Containment
import Locksmith.Proofs.Database.Matching

namespace Locksmith
namespace Database

/-- How many tiers are better. -/
def Tier.rank : Tier → Nat
  | name => 0
  | aliasName => 1
  | namePrefix => 2
  | aliasPrefix => 3

theorem Tier.rank_injective {t t' : Tier} (h : t.rank = t'.rank) : t = t' := by
  cases t <;> cases t' <;> first | rfl | cases h

namespace Store

variable {s : Store} {name : Bytes} {t : Tier} {l : List Dbref} {d : Dbref}

/-- An object fits a name at a tier, without regard to case. -/
def Fits (s : Store) (name : Bytes) (t : Tier) (d : Dbref) : Prop :=
  ∃ o, s.get? d = some o ∧ t.fits name.toLower o = true

/-- No tier at which one of some objects fits a name is better than `t`. -/
def NoneBetter (s : Store) (name : Bytes) (l : List Dbref) (t : Tier) : Prop :=
  ∀ d ∈ l, ∀ t', s.Fits name t' d → t.rank ≤ t'.rank

/-- None of some objects fits a name at any tier. -/
def Unfit (s : Store) (name : Bytes) (l : List Dbref) : Prop := ∀ d ∈ l, ∀ t, ¬s.Fits name t d

/-- One of some objects fits a name, and no other fits it at the same tier or a better one. -/
def FitsAlone (s : Store) (name : Bytes) (l : List Dbref) (d : Dbref) : Prop :=
  d ∈ l ∧ ∃ t, s.Fits name t d ∧ s.NoneBetter name [d] t ∧
    ∀ d' ∈ l, d' ≠ d → ∀ t', t'.rank ≤ t.rank → ¬s.Fits name t' d'

/-- Two of some objects fit a name at a tier that is the best for all of them. -/
def Contested (s : Store) (name : Bytes) (l : List Dbref) : Prop :=
  ∃ t a b, (a ∈ l ∧ s.Fits name t a) ∧ (b ∈ l ∧ s.Fits name t b) ∧ a ≠ b ∧ s.NoneBetter name l t

/-- What comes of looking for a name among some objects. -/
inductive Picks (s : Store) (name : Bytes) (l : List Dbref) : Option Dbref → Prop where
  | none (unfit : s.Unfit name l) : Picks s name l none
  | one {d : Dbref} (alone : s.FitsAlone name l d) : Picks s name l (some d)
  | several (contested : s.Contested name l) : Picks s name l (some .ambiguous)

theorem mem_fitting : d ∈ s.fitting t name.toLower l ↔ d ∈ l ∧ s.Fits name t d := by
  rw [fitting, List.mem_filter, Option.any_eq_true]
  rfl

/-- Of tiers from the best down, the first at which something fits. -/
theorem first_fit (f : Tier → List Dbref) {ts : List Tier}
    (hts : ts.Pairwise (·.rank < ·.rank)) :
    (((ts.map f).find? (!·.isEmpty)).getD [] = [] ∧ ∀ t ∈ ts, f t = []) ∨
      ∃ t, ((ts.map f).find? (!·.isEmpty)).getD [] = f t ∧ f t ≠ [] ∧ ∀ t' ∈ ts,
        t'.rank < t.rank → f t' = [] := by
  induction ts with
  | nil => exact .inl ⟨rfl, List.forall_mem_nil _⟩
  | cons t rest ih =>
    obtain ⟨hbest, hrest⟩ := List.pairwise_cons.1 hts
    rw [List.map_cons]
    by_cases hempty : f t = []
    · rw [List.find?_cons_of_neg (by rw [hempty]; exact Bool.false_ne_true)]
      rcases ih hrest with ⟨hnone, hall⟩ | ⟨t', hfound, hne, hbetter⟩
      · exact .inl ⟨hnone, List.forall_mem_cons.2 ⟨hempty, hall⟩⟩
      · exact .inr ⟨t', hfound, hne, List.forall_mem_cons.2 ⟨fun _ => hempty, hbetter⟩⟩
    · rw [List.find?_cons_of_pos (by simpa using hempty)]
      refine .inr ⟨t, rfl, hempty,
        List.forall_mem_cons.2 ⟨fun hlt => absurd hlt (Nat.lt_irrefl _), ?_⟩⟩
      exact fun t' ht' hlt => absurd hlt (hbest t' ht').asymm

/-- The objects that fit best are all that fit at one tier, if any fits. -/
theorem bestFits_cases (s : Store) (search : Bytes) (l : List Dbref) :
    (s.bestFits search l = [] ∧ ∀ t, s.fitting t search l = []) ∨
      ∃ t, s.bestFits search l = s.fitting t search l ∧ s.fitting t search l ≠ [] ∧
        ∀ t', t'.rank < t.rank → s.fitting t' search l = [] := by
  have hsorted : Tier.all.Pairwise (·.rank < ·.rank) := by decide
  have hall (t : Tier) : t ∈ Tier.all := by
    cases t with
    | name => decide
    | aliasName => decide
    | namePrefix => decide
    | aliasPrefix => decide
  rcases first_fit (fun t => s.fitting t search l) hsorted with
    ⟨hnone, hempty⟩ | ⟨t, hfound, hne, hbetter⟩
  · exact .inl ⟨hnone, fun t => hempty t (hall t)⟩
  · exact .inr ⟨t, hfound, hne, fun t' => hbetter t' (hall t')⟩

/-- What fits best among objects that are listed once. -/
theorem picks_bestFits (s : Store) (name : Bytes) (hl : l.Nodup) :
    s.Picks name l (only? (s.bestFits name.toLower l)) := by
  have hnot {t : Tier} (hempty : s.fitting t name.toLower l = []) {d : Dbref} (hd : d ∈ l) :
      ¬s.Fits name t d := by
    intro hfits
    have hmem := mem_fitting.2 ⟨hd, hfits⟩
    rw [hempty] at hmem
    cases hmem
  rcases bestFits_cases s name.toLower l with ⟨hnone, hempty⟩ | ⟨t, hbest, hne, hbetter⟩
  · rw [hnone]
    exact .none fun d hd t => hnot (hempty t) hd
  · have hleast : s.NoneBetter name l t := by
      intro d hd t' hfits
      by_contra hlt
      exact hnot (hbetter t' (Nat.lt_of_not_le hlt)) hd hfits
    have hmem {d : Dbref} (hd : d ∈ s.fitting t name.toLower l) : d ∈ l ∧ s.Fits name t d :=
      mem_fitting.1 hd
    rw [hbest]
    rcases hfits : s.fitting t name.toLower l with _ | ⟨a, _ | ⟨b, rest⟩⟩
    · exact absurd hfits hne
    · rw [hfits] at hmem
      obtain ⟨ha, hat⟩ := hmem (List.mem_singleton_self a)
      refine .one ⟨ha, t, hat, fun d hd => hleast d (List.mem_singleton.1 hd ▸ ha), ?_⟩
      intro d hd hother t' hrank hfits'
      -- another object could fit at no other tier, and there only the first does
      obtain rfl := Tier.rank_injective (Nat.le_antisymm hrank (hleast d hd t' hfits'))
      have hsame := mem_fitting.2 ⟨hd, hfits'⟩
      rw [hfits] at hsame
      exact hother (List.mem_singleton.1 hsame)
    · have hdistinct : a ≠ b := by
        have hnodup : (s.fitting t name.toLower l).Nodup := hl.filter _
        rw [hfits] at hnodup
        exact fun hab => (List.nodup_cons.1 hnodup).1 (hab ▸ List.mem_cons_self)
      rw [hfits] at hmem
      exact .several ⟨t, a, b, hmem List.mem_cons_self,
        hmem (List.mem_cons_of_mem _ List.mem_cons_self), hdistinct, hleast⟩

/-- What is listed in a container, a player left aside. -/
def besides (s : Store) (player container : Dbref) : List Dbref :=
  (s.contentsOf container).filter (· ≠ player)

namespace Arranged

variable {player : Dbref} {o : Object}

theorem nodup_contentsOf (h : s.Arranged) (hd : (s.locationOf d).isSome) :
    (s.contentsOf d).Nodup := by
  apply List.nodup_iff_count_le_one.2
  intro a
  rw [h.forest.listed a d hd]
  split
  · exact Nat.le_refl 1
  · exact Nat.zero_le 1

theorem not_mem_contentsOf_self (h : s.Arranged) (hd : (s.locationOf d).isSome) :
    d ∉ s.contentsOf d := by
  rw [h.forest.mem_held hd]
  intro hself
  obtain ⟨way, hway⟩ := h.forest.rooted d hd
  have honce := hway.nodup h.forest.nowhere
  cases hway with
  | nowhere hnothing => exact h.forest.ne_nothing hd hnothing
  | @inside _ b way hloc further =>
    cases hself.symm.trans hloc
    cases further with
    | nowhere hnothing => exact h.forest.ne_nothing hd hnothing
    | inside => exact (List.nodup_cons.1 honce).1 List.mem_cons_self

theorem besides_self (h : s.Arranged) (ho : s.get? player = some o) :
    s.besides player player = o.contents := by
  have hthere : (s.locationOf player).isSome := by
    rw [locationOf_of_get? ho]
    rfl
  rw [besides, List.filter_eq_self.2, contentsOf_of_get? ho]
  intro d hd
  rw [decide_eq_true_iff]
  rintro rfl
  exact h.not_mem_contentsOf_self hthere hd

end Arranged

/-- What comes of looking for a name among what a player carries, and then, if nothing there
fits, around it. -/
inductive PicksNearby (s : Store) (player : Dbref) (o : Object) (name : Bytes) :
    Dbref → Prop where
  | carried {d : Dbref} (picks : s.Picks name (s.besides player player) (some d)) :
      PicksNearby s player o name d
  | around {d : Dbref} (unfit : s.Unfit name (s.besides player player))
      (picks : s.Picks name (s.besides player o.location) (some d)) :
      PicksNearby s player o name d
  | nowhere (unfit : s.Unfit name (s.besides player player))
      (unfitAround : s.Unfit name (s.besides player o.location)) :
      PicksNearby s player o name .failedMatch

theorem Arranged.matchNearby (h : s.Arranged) {player : Dbref} {o : Object}
    (ho : s.get? player = some o) (name : Bytes) :
    s.PicksNearby player o name (s.matchNearby player o name) := by
  have hthere : (s.locationOf player).isSome := by
    rw [locationOf_of_get? ho]
    rfl
  have hcarried := s.picks_bestFits name ((h.nodup_contentsOf hthere).filter (· ≠ player))
  change s.Picks name (s.besides player player)
    (only? (s.bestFits name.toLower (s.besides player player))) at hcarried
  unfold Store.matchNearby
  dsimp only
  rw [← h.besides_self ho]
  rcases hfound : only? (s.bestFits name.toLower (s.besides player player)) with _ | d
  · rw [hfound] at hcarried
    cases hcarried with
    | none hunfit =>
      rcases hroom : s.get? o.location with _ | room
      · refine .nowhere hunfit ?_
        rw [besides, contentsOf, hroom]
        exact List.forall_mem_nil _
      · have hplace : (s.locationOf o.location).isSome := by
          rw [locationOf_of_get? hroom]
          rfl
        have haround := s.picks_bestFits name ((h.nodup_contentsOf hplace).filter (· ≠ player))
        rw [contentsOf_of_get? hroom] at haround
        have hbesides : s.besides player o.location = room.contents.filter (· ≠ player) := by
          rw [besides, contentsOf_of_get? hroom]
        dsimp only
        rcases hpick : only? (s.bestFits name.toLower (room.contents.filter (· ≠ player))) with
          _ | d
        · rw [hpick] at haround
          cases haround with
          | none hunfit' => exact .nowhere hunfit (hbesides ▸ hunfit')
        · rw [hpick] at haround
          exact .around hunfit (hbesides ▸ haround)
  · rw [hfound] at hcarried
    exact .carried hcarried

/-- What a name means to a player is an object, whose number leads everyone to it, or the search
failed. An object that was looked for by its name is the only one that fits the name so well
among what the player carries, or, if nothing there fits at all, around the player. A name is
ambiguous only if two objects in one of these places fit best. -/
theorem Arranged.matchObject_sound (h : s.Arranged) (player : Dbref) (text : Bytes) :
    s.Found (s.matchObject player text) ∧
      (s.isValid (s.matchObject player text) = true → ∀ viewer,
        s.matchObject viewer (s.matchObject player text).render = s.matchObject player text) ∧
      (∀ o name, s.Searches player text o name → s.isValid (s.matchObject player text) = true →
        s.FitsAlone name (s.besides player player) (s.matchObject player text) ∨
          s.Unfit name (s.besides player player) ∧
            s.FitsAlone name (s.besides player o.location) (s.matchObject player text)) ∧
      (s.matchObject player text = .ambiguous → ∃ o name, s.Searches player text o name ∧
        (s.Contested name (s.besides player player) ∨
          s.Unfit name (s.besides player player) ∧
          s.Contested name (s.besides player o.location))) := by
  refine ⟨h.numbered.matchObject player text,
    fun hvalid viewer => matchObject_render hvalid viewer, ?_, ?_⟩
  · intro o name hsearches hvalid
    have halone {l : List Dbref} (hpicks : s.Picks name l (some (s.matchObject player text))) :
        s.FitsAlone name l (s.matchObject player text) := by
      generalize s.matchObject player text = d at hvalid hpicks ⊢
      cases hpicks with
      | one halone => exact halone
      | several => cases hvalid
    have hnearby := h.matchNearby hsearches.there name
    rw [← hsearches.matchObject] at hnearby
    generalize hd : s.matchObject player text = d at hvalid halone hnearby ⊢
    cases hnearby with
    | carried hpicks => exact .inl (halone hpicks)
    | around hunfit hpicks => exact .inr ⟨hunfit, halone hpicks⟩
    | nowhere => cases hvalid
  · intro hambiguous
    rcases h.numbered.matchObject_cases player text with
      hnothing | hsettled | ⟨o, name, hsearches⟩
    · rw [hambiguous] at hnothing
      cases hnothing
    · exact absurd hambiguous hsettled.ne_ambiguous
    · refine ⟨o, name, hsearches, ?_⟩
      have hcontested {l : List Dbref} (hpicks : s.Picks name l (some .ambiguous)) :
          s.Contested name l := by
        generalize hd : some Dbref.ambiguous = found at hpicks
        cases hpicks with
        | none => cases hd
        | one halone =>
          cases hd
          obtain ⟨-, t, ⟨o', ho', -⟩, -⟩ := halone
          cases (h.numbered _ o' ho').2
        | several hcontested => exact hcontested
      have hnearby := h.matchNearby hsearches.there name
      rw [← hsearches.matchObject, hambiguous] at hnearby
      generalize hd : Dbref.ambiguous = d at hnearby
      cases hnearby with
      | carried hpicks => exact .inl (hcontested (hd ▸ hpicks))
      | around hunfit hpicks => exact .inr ⟨hunfit, hcontested (hd ▸ hpicks)⟩
      | nowhere => cases hd

def addNamed (d owner : Dbref) (name : Bytes) : Relocation :=
  .add { Object.new d owner with name } ⟨rfl, rfl⟩

/-- A guest `#1` in the hall `#0` carries a bell and a belt, and a lamp is around. -/
def household : Session :=
  Relocation.performAll (Relocation.opened .standard (.empty .memory .none) none)
    [addNamed 0 0 "Hall", addNamed 1 1 "Guest", addNamed 2 1 "Bell", addNamed 3 1 "Belt",
      addNamed 4 1 "Lamp", .move 1 0, .move 2 1, .move 3 1, .move 4 0]

theorem household_arranged : household.store.Arranged :=
  Relocation.performAll_arranged (Relocation.opened_arranged _ _ none) _

/-- What begins with `lam` is around the guest, and `bel` may mean two of the things that it
carries. -/
theorem matchObject_sound_household :
    household.store.Arranged ∧
      (∃ o, household.store.Searches 1 "lam" o "lam" ∧ household.store.matchObject 1 "lam" = 4 ∧
        household.store.isValid 4 = true ∧
        (household.store.FitsAlone "lam" (household.store.besides 1 1) 4 ∨
          household.store.Unfit "lam" (household.store.besides 1 1) ∧
            household.store.FitsAlone "lam" (household.store.besides 1 o.location) 4)) ∧
      household.store.matchObject 1 "bel" = .ambiguous ∧
      ∃ o name, household.store.Searches 1 "bel" o name ∧
        (household.store.Contested name (household.store.besides 1 1) ∨
          household.store.Unfit name (household.store.besides 1 1) ∧
            household.store.Contested name (household.store.besides 1 o.location)) := by
  have hsearches : household.store.Searches 1 "lam"
      { Object.new 1 1 with name := "Guest", location := 0, contents := [2, 3] } "lam" :=
    ⟨rfl, by decide +kernel, by decide, by decide, by decide +kernel⟩
  have hlamp : household.store.matchObject 1 "lam" = 4 := by decide +kernel
  have hthere : household.store.isValid 4 = true := by decide +kernel
  have hbell : household.store.matchObject 1 "bel" = .ambiguous := by decide +kernel
  have hfound :=
    (household_arranged.matchObject_sound 1 "lam").2.2.1 _ _ hsearches (hlamp ▸ hthere)
  rw [hlamp] at hfound
  exact ⟨household_arranged, ⟨_, hsearches, hlamp, hthere, hfound⟩, hbell,
    (household_arranged.matchObject_sound 1 "bel").2.2.2 hbell⟩

end Store
end Database
end Locksmith
