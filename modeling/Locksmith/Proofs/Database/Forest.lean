import Mathlib
import Locksmith.Dbref

namespace Locksmith
namespace Database

/-- From `a` outwards one comes through the objects of `way` and then nowhere. -/
inductive Outward (loc : Dbref → Option Dbref) : Dbref → List Dbref → Prop where
  | nowhere {a : Dbref} (h : a = .nothing) : Outward loc a []
  | inside {a b : Dbref} {way : List Dbref} (h : loc a = some b) (further : Outward loc b way) :
      Outward loc a (a :: way)

/-- What lies where and what is listed where agree, and every way outwards ends. -/
structure Forest (loc : Dbref → Option Dbref) (held : Dbref → List Dbref) : Prop where
  nowhere : loc .nothing = none
  listed : ∀ a b, (loc b).isSome → (held b).count a = if loc a = some b then 1 else 0
  housed : ∀ a b, loc a = some b → b = .nothing ∨ (loc b).isSome
  rooted : ∀ a, (loc a).isSome → ∃ way, Outward loc a way

variable {loc loc' : Dbref → Option Dbref} {held held' : Dbref → List Dbref}
  {a b d old dest : Dbref} {way way' : List Dbref}

namespace Outward

theorem present (h : Outward loc a way) : ∀ x ∈ way, (loc x).isSome := by
  induction h with
  | nowhere => exact List.forall_mem_nil _
  | inside h _ ih =>
    intro x hx
    rcases List.mem_cons.1 hx with rfl | hx
    · rw [h]
      rfl
    · exact ih x hx

theorem eq (hnowhere : loc .nothing = none) (h : Outward loc a way) (h' : Outward loc a way') :
    way = way' := by
  induction h generalizing way' with
  | nowhere hnothing =>
    subst hnothing
    cases h' with
    | nowhere => rfl
    | inside hloc =>
      rw [hnowhere] at hloc
      cases hloc
  | inside hloc _ ih =>
    cases h' with
    | nowhere hnothing =>
      rw [hnothing, hnowhere] at hloc
      cases hloc
    | inside hloc' further' =>
      rw [hloc] at hloc'
      cases hloc'
      rw [ih further']

theorem of_mem (h : Outward loc a way) {x : Dbref} (hx : x ∈ way) :
    ∃ rest, Outward loc x rest ∧ rest.length ≤ way.length := by
  induction h with
  | nowhere => cases hx
  | inside hloc further ih =>
    rcases List.mem_cons.1 hx with rfl | hx
    · exact ⟨_, .inside hloc further, Nat.le_refl _⟩
    · obtain ⟨rest, hrest, hlength⟩ := ih hx
      exact ⟨rest, hrest, Nat.le_succ_of_le hlength⟩

/-- No way comes through an object twice. -/
theorem nodup (hnowhere : loc .nothing = none) (h : Outward loc a way) : way.Nodup := by
  induction h with
  | nowhere => exact List.nodup_nil
  | @inside a b way hloc further ih =>
    refine List.nodup_cons.2 ⟨?_, ih⟩
    intro hmem
    obtain ⟨rest, hrest, hlength⟩ := further.of_mem hmem
    rw [← eq hnowhere (.inside hloc further) hrest, List.length_cons] at hlength
    omega

theorem congr (h : Outward loc a way) (hloc : ∀ x ∈ way, loc' x = loc x) :
    Outward loc' a way := by
  induction h with
  | nowhere h => exact .nowhere h
  | @inside a b way h _ ih =>
    have hsame : loc' a = some b := (hloc a List.mem_cons_self).trans h
    exact .inside hsame (ih fun x hx => hloc x (List.mem_cons_of_mem _ hx))

end Outward

namespace Forest

theorem ne_nothing (h : Forest loc held) (hb : (loc b).isSome) : b ≠ .nothing := by
  rintro rfl
  rw [h.nowhere] at hb
  cases hb

theorem mem_held (h : Forest loc held) (hb : (loc b).isSome) : a ∈ held b ↔ loc a = some b := by
  rw [← List.count_pos_iff, h.listed a b hb]
  by_cases hloc : loc a = some b
  · rw [if_pos hloc]
    exact iff_of_true Nat.one_pos hloc
  · rw [if_neg hloc]
    exact iff_of_false (Nat.lt_irrefl 0) hloc

/-- Once `d` is dropped where it lies, it is listed nowhere. -/
theorem count_dropped (h : Forest loc held) (hd : loc d = some old) (hb : (loc b).isSome)
    (a : Dbref) :
    (if b = old then (held b).filter (· ≠ d) else held b).count a =
      if a ≠ d ∧ loc a = some b then 1 else 0 := by
  by_cases ha : a = d
  · subst ha
    have hnot : ¬(a ≠ a ∧ loc a = some b) := fun hat => hat.1 rfl
    by_cases hb' : b = old
    · rw [if_pos hb', if_neg hnot]
      apply List.count_eq_zero.2
      intro hmem
      simp at hmem
    · rw [if_neg hb', if_neg hnot, h.listed a b hb, if_neg]
      intro hloc
      rw [hd] at hloc
      exact hb' (Option.some.inj hloc).symm
  · simp only [ne_eq, ha, not_false_eq_true, true_and]
    rw [← h.listed a b hb]
    split
    · exact List.count_filter (by simpa using ha)
    · rfl

theorem add (h : Forest loc held) (hd : loc d = none) (hne : d ≠ .nothing)
    (hloc : ∀ a, loc' a = if a = d then some .nothing else loc a)
    (hheld : ∀ b, held' b = if b = d then [] else held b) : Forest loc' held' := by
  have hother (a : Dbref) (ha : a ≠ d) : loc' a = loc a := (hloc a).trans (if_neg ha)
  have hself : loc' d = some .nothing := (hloc d).trans (if_pos rfl)
  have hvacant (a : Dbref) : loc a ≠ some d := by
    intro ha
    rcases h.housed a d ha with hnothing | hsome
    · exact hne hnothing
    · rw [hd] at hsome
      cases hsome
  constructor
  · rw [hother _ hne.symm, h.nowhere]
  · intro a b hb
    rw [hheld]
    by_cases hbd : b = d
    · subst hbd
      rw [if_pos rfl, List.count_nil, if_neg]
      by_cases ha : a = b
      · rw [ha, hself]
        exact fun hat => hne (Option.some.inj hat).symm
      · rw [hother a ha]
        exact hvacant a
    · rw [hother b hbd] at hb
      rw [if_neg hbd, h.listed a b hb]
      by_cases ha : a = d
      · subst ha
        rw [hd, hself, if_neg (Option.some_ne_none b).symm,
          if_neg fun hat => h.ne_nothing hb (Option.some.inj hat).symm]
      · rw [hother a ha]
  · intro a b ha
    by_cases had : a = d
    · rw [had, hself] at ha
      exact .inl (Option.some.inj ha).symm
    · rw [hother a had] at ha
      rcases h.housed a b ha with hb | hb
      · exact .inl hb
      · refine .inr ?_
        rwa [hother b fun hbd => hvacant a (hbd ▸ ha)]
  · intro a ha
    by_cases had : a = d
    · subst had
      exact ⟨_, .inside hself (.nowhere rfl)⟩
    · rw [hother a had] at ha
      obtain ⟨way, hway⟩ := h.rooted a ha
      refine ⟨way, hway.congr fun x hx => hother x ?_⟩
      rintro rfl
      have hx := hway.present _ hx
      rw [hd] at hx
      cases hx

theorem move (h : Forest loc held) (hd : loc d = some old)
    (hdest : dest = .nothing ∨ (loc dest).isSome) (hway : ∀ way, Outward loc dest way → d ∉ way)
    (hloc : ∀ a, loc' a = if a = d then some dest else loc a)
    (hheld : ∀ b, (loc b).isSome → held' b =
      (if b = old then (held b).filter (· ≠ d) else held b) ++ if b = dest then [d] else []) :
    Forest loc' held' := by
  have hother (a : Dbref) (ha : a ≠ d) : loc' a = loc a := (hloc a).trans (if_neg ha)
  have hself : loc' d = some dest := (hloc d).trans (if_pos rfl)
  have hsome (a : Dbref) : (loc' a).isSome = (loc a).isSome := by
    by_cases ha : a = d
    · rw [ha, hself, hd]
      rfl
    · rw [hother a ha]
  have hne : d ≠ .nothing := h.ne_nothing (Option.isSome_iff_exists.2 ⟨old, hd⟩)
  -- the way from the destination does not come through the object, so it is what it was
  have hdestWay : ∃ way, Outward loc' dest way := by
    rcases hdest with rfl | hdest
    · exact ⟨[], .nowhere rfl⟩
    · obtain ⟨way, hout⟩ := h.rooted dest hdest
      refine ⟨way, hout.congr fun x hx => hother x ?_⟩
      rintro rfl
      exact hway way hout hx
  constructor
  · rw [hother _ hne.symm, h.nowhere]
  · intro a b hb
    rw [hsome] at hb
    rw [hheld b hb, List.count_append, h.count_dropped hd hb]
    by_cases ha : a = d
    · subst ha
      rw [if_neg fun hat => hat.1 rfl, hself, Nat.zero_add]
      by_cases hbd : b = dest
      · rw [if_pos hbd, if_pos (congrArg some hbd.symm), List.count_singleton_self]
      · rw [if_neg hbd, if_neg fun hat => hbd (Option.some.inj hat).symm, List.count_nil]
    · rw [hother a ha]
      have hzero : (if b = dest then [d] else []).count a = 0 := by
        split
        · exact List.count_singleton.trans (if_neg fun heq => ha (eq_of_beq heq).symm)
        · exact List.count_nil
      rw [hzero, Nat.add_zero]
      simp only [ne_eq, ha, not_false_eq_true, true_and]
  · intro a b ha
    rw [hsome]
    by_cases had : a = d
    · rw [had, hself] at ha
      exact Option.some.inj ha ▸ hdest
    · rw [hother a had] at ha
      exact h.housed a b ha
  · intro a ha
    rw [hsome] at ha
    obtain ⟨way, hout⟩ := h.rooted a ha
    clear ha
    induction hout with
    | nowhere hnothing => exact ⟨[], .nowhere hnothing⟩
    | @inside a b way hab _ ih =>
      by_cases had : a = d
      · obtain ⟨way', hway'⟩ := hdestWay
        exact ⟨a :: way', .inside (had ▸ hself) hway'⟩
      · obtain ⟨way', hway'⟩ := ih
        exact ⟨a :: way', .inside ((hother a had).trans hab) hway'⟩

theorem remove (h : Forest loc held) (hd : loc d = some old)
    (hloc : ∀ a, loc' a = if a = d then none else if a ∈ held d then some .nothing else loc a)
    (hheld : ∀ b, b ≠ d → (loc b).isSome →
      held' b = if b = old then (held b).filter (· ≠ d) else held b) :
    Forest loc' held' := by
  have hdsome : (loc d).isSome := by
    rw [hd]
    rfl
  have hself : loc' d = none := (hloc d).trans (if_pos rfl)
  have hinside (a : Dbref) (ha : a ≠ d) (hin : loc a = some d) : loc' a = some .nothing := by
    rw [hloc, if_neg ha, if_pos ((h.mem_held hdsome).2 hin)]
  have hother (a : Dbref) (ha : a ≠ d) (hin : loc a ≠ some d) : loc' a = loc a := by
    rw [hloc, if_neg ha, if_neg (mt (h.mem_held hdsome).1 hin)]
  have hsome (a : Dbref) (ha : a ≠ d) : (loc' a).isSome = (loc a).isSome := by
    by_cases hin : loc a = some d
    · rw [hinside a ha hin, hin]
      rfl
    · rw [hother a ha hin]
  have hleft {b : Dbref} (hb : (loc' b).isSome) : b ≠ d := by
    rintro rfl
    rw [hself] at hb
    cases hb
  constructor
  · rw [hother _ (h.ne_nothing hdsome).symm
      (by rw [h.nowhere]; exact (Option.some_ne_none d).symm), h.nowhere]
  · intro a b hb
    have hbd := hleft hb
    rw [hsome b hbd] at hb
    rw [hheld b hbd hb, h.count_dropped hd hb]
    by_cases ha : a = d
    · rw [ha, hself, if_neg fun hat => hat.1 rfl, if_neg (Option.some_ne_none b).symm]
    · by_cases hin : loc a = some d
      · rw [hin, hinside a ha hin, if_neg fun hat => hbd (Option.some.inj hat.2).symm,
          if_neg fun hat => h.ne_nothing hb (Option.some.inj hat).symm]
      · rw [hother a ha hin]
        simp only [ne_eq, ha, not_false_eq_true, true_and]
  · intro a b ha
    have had : a ≠ d := by
      rintro rfl
      rw [hself] at ha
      cases ha
    by_cases hin : loc a = some d
    · rw [hinside a had hin] at ha
      exact .inl (Option.some.inj ha).symm
    · rw [hother a had hin] at ha
      rcases h.housed a b ha with hb | hb
      · exact .inl hb
      · refine .inr ?_
        rwa [hsome b fun hbd => hin (hbd ▸ ha)]
  · intro a ha
    have had := hleft ha
    rw [hsome a had] at ha
    obtain ⟨way, hout⟩ := h.rooted a ha
    clear ha
    induction hout with
    | nowhere hnothing => exact ⟨[], .nowhere hnothing⟩
    | @inside a b way hab _ ih =>
      by_cases hin : loc a = some d
      · exact ⟨[a], .inside (hinside a had hin) (.nowhere rfl)⟩
      · obtain ⟨way', hway'⟩ := ih fun hbd => hin (hbd ▸ hab)
        exact ⟨a :: way', .inside ((hother a had hin).trans hab) hway'⟩

end Forest
end Database
end Locksmith
