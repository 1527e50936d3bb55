import Locksmith.Proofs.Database.History
import Locksmith.Proofs.Text.Decimal

namespace Locksmith
namespace Database
namespace Store

variable {s : Store} {d : Dbref} {o : Object} {l : List Dbref} {search : Bytes}

theorem Numbered.isValid (h : s.Numbered) (ho : s.get? d = some o) : s.isValid d = true := by
  rw [Store.isValid, (h d o ho).2, ho]
  rfl

theorem get?_of_isValid (h : s.isValid d = true) : ∃ o, s.get? d = some o :=
  Option.isSome_iff_exists.1 (Bool.and_eq_true_iff.1 h).2

/-- A search led to an object, or failed in one of three ways. -/
def Found (s : Store) (d : Dbref) : Prop :=
  s.isValid d = true ∨ d = .nothing ∨ d = .ambiguous ∨ d = .failedMatch

theorem Found.failed : s.Found .failedMatch := Or.inr (Or.inr (Or.inr rfl))

/-- A search for one object led to it, or it is not there. -/
def Settled (s : Store) (d : Dbref) : Prop := s.isValid d = true ∨ d = .failedMatch

theorem Settled.found (h : s.Settled d) : s.Found d := by
  rcases h with hvalid | rfl
  · exact Or.inl hvalid
  · exact .failed

theorem Settled.ne_ambiguous (h : s.Settled d) : d ≠ .ambiguous := by
  rcases h with hvalid | rfl
  · rintro rfl
    cases hvalid
  · decide

theorem mem_bestFits (h : d ∈ s.bestFits search l) : ∃ o, s.get? d = some o := by
  unfold bestFits at h
  cases hfind : (Tier.all.map fun t => s.fitting t search l).find? (!·.isEmpty) with
  | none =>
    rw [hfind] at h
    cases h
  | some found =>
    rw [hfind] at h
    obtain ⟨t, -, rfl⟩ := List.mem_map.1 (List.mem_of_find?_eq_some hfind)
    obtain ⟨o, ho, -⟩ := (Option.any_eq_true _ _).1 (List.mem_filter.1 h).2
    exact ⟨o, ho⟩

theorem only?_eq_some (h : only? l = some d) : d ∈ l ∨ d = .ambiguous := by
  unfold only? at h
  split at h
  · cases h
  · cases h
    exact Or.inl (List.mem_singleton_self d)
  · cases h
    exact Or.inr rfl

theorem Numbered.only?_bestFits (h : s.Numbered) (hd : only? (s.bestFits search l) = some d) :
    s.Found d := by
  rcases only?_eq_some hd with hmem | rfl
  · obtain ⟨o, ho⟩ := mem_bestFits hmem
    exact Or.inl (h.isValid ho)
  · exact Or.inr (Or.inr (Or.inl rfl))

theorem Numbered.matchObjId (h : s.Numbered) (text : Bytes) :
    s.Settled (s.matchObjId text) := by
  unfold Store.matchObjId
  split
  · exact Or.inr rfl
  · split
    · rename_i id _ o ho
      split
      · exact Or.inl ((h _ o ho).1 ▸ h.isValid ho)
      · exact Or.inr rfl
    · exact Or.inr rfl

theorem matchNumber_settled (s : Store) (text : Bytes) : s.Settled (s.matchNumber text) := by
  unfold matchNumber
  split
  · split
    · rename_i hvalid
      exact Or.inl hvalid
    · exact Or.inr rfl
  · exact Or.inr rfl

theorem Numbered.player (h : s.Numbered) (name : Bytes) : s.Settled (s.player name) := by
  unfold Store.player
  cases hfind : s.objects.find? fun o => o.type = .player && o.name.equalsFold name with
  | none => exact Or.inr rfl
  | some o =>
    obtain ⟨d, ho⟩ := mem_objects.1 (List.mem_of_find?_eq_some hfind)
    refine Or.inl ?_
    change s.isValid o.id = true
    rw [(h d o ho).1]
    exact h.isValid ho

theorem Numbered.matchNearby (h : s.Numbered) (player : Dbref) (o : Object) (name : Bytes) :
    s.Found (s.matchNearby player o name) := by
  unfold Store.matchNearby
  dsimp only
  split
  · rename_i d hd
    exact h.only?_bestFits hd
  · split
    · exact .failed
    · rename_i room _
      cases hd : only? (s.bestFits name.toLower (room.contents.filter (· ≠ player))) with
      | none => exact .failed
      | some d => exact h.only?_bestFits hd

/-- A text is a name that is looked for among what a player carries and what is around: it is no
number, no player after a star, not `me` and not `here`. -/
structure Searches (s : Store) (player : Dbref) (text : Bytes) (o : Object)
    (name : Bytes) : Prop where
  there : s.get? player = some o
  trimmed : text.trimBlanks = name
  ne_nil : name ≠ []
  unmarked : name.head? ≠ some (Bytes.ofChar '#') ∧ name.head? ≠ some (Bytes.ofChar '*')
  other : name.toLower ≠ "me" ∧ name.toLower ≠ "here"

theorem Searches.matchObject {player : Dbref} {text name : Bytes}
    (h : s.Searches player text o name) :
    s.matchObject player text = s.matchNearby player o name := by
  obtain ⟨first, rest, hname⟩ := List.exists_cons_of_ne_nil h.ne_nil
  have hmark : first ≠ Bytes.ofChar '#' ∧ first ≠ Bytes.ofChar '*' := by
    have hunmarked := h.unmarked
    rw [hname] at hunmarked
    exact ⟨fun hfirst => hunmarked.1 (congrArg some hfirst),
      fun hfirst => hunmarked.2 (congrArg some hfirst)⟩
  have hother := h.other
  rw [hname] at hother
  rw [Store.matchObject, h.trimmed, hname]
  dsimp only
  rw [if_neg hmark.1, if_neg hmark.2, h.there]
  dsimp only
  rw [if_neg hother.1, if_neg hother.2]

/-- What is done with a text: a blank one means nothing, and what is no name to be looked for
means one object. -/
theorem Numbered.matchObject_cases (h : s.Numbered) (player : Dbref) (text : Bytes) :
    s.matchObject player text = .nothing ∨ s.Settled (s.matchObject player text) ∨
      ∃ o name, s.Searches player text o name := by
  unfold Store.matchObject
  dsimp only
  split
  · exact .inl rfl
  · rename_i first rest hname
    right
    split
    · left
      split
      · exact h.matchObjId _
      · exact s.matchNumber_settled _
    · rename_i hnumber
      split
      · exact .inl (h.player _)
      · rename_i hstar
        split
        · exact .inl (Or.inr rfl)
        · rename_i o ho
          split
          · exact .inl (Or.inl (h.isValid ho))
          · rename_i hme
            split
            · left
              split
              · rename_i hvalid
                exact Or.inl hvalid
              · exact Or.inr rfl
            · rename_i hhere
              refine .inr ⟨o, _, ho, rfl, ?_, ?_, hme, hhere⟩
              · rw [hname]
                exact List.cons_ne_nil _ _
              · rw [hname]
                exact ⟨fun hfirst => hnumber (Option.some.inj hfirst),
                  fun hfirst => hstar (Option.some.inj hfirst)⟩

/-- Whatever a name means to a player is an object, or the name means nothing. -/
theorem Numbered.matchObject (h : s.Numbered) (player : Dbref) (text : Bytes) :
    s.Found (s.matchObject player text) := by
  rcases h.matchObject_cases player text with hnothing | hsettled | ⟨o, name, hsearches⟩
  · exact Or.inr (Or.inl hnothing)
  · exact hsettled.found
  · rw [hsearches.matchObject]
    exact h.matchNearby player o name

/-- However the number of an object is written, to every player it means that object. -/
theorem matchObject_of_parse {text : Bytes} (hparse : Dbref.parse text = .ok d)
    (hvalid : s.isValid d = true) (player : Dbref) : s.matchObject player text = d := by
  obtain ⟨digits, htext, hdigits⟩ := Dbref.parse_eq_ok hparse
  have hnumeral := Decimal.isNumeral_of_readInt64 hdigits
  have hcolon : (35 :: digits).contains (Bytes.ofChar ':') = false := by
    rw [List.contains_eq_mem, decide_eq_false_iff_not]
    intro hmem
    rcases List.mem_cons.1 hmem with hmark | hmem
    · cases hmark
    · cases hnumeral _ hmem
  -- the text is trimmed once more when it is read as a number
  have htrim : Bytes.trimBlanks (35 :: digits) = 35 :: digits := by
    apply Bytes.trimBlanks_eq_self
    refine List.forall_mem_cons.2 ⟨by decide, fun b hb => ?_⟩
    exact Decimal.isNumeral_visible (hnumeral b hb)
  have hread : Dbref.parse (35 :: digits) = .ok d := by
    rw [Dbref.parse, htrim]
    simp only [hdigits]
  have hmark : (35 : UInt8) = Bytes.ofChar '#' := rfl
  rw [matchObject, htext]
  dsimp only
  rw [if_pos hmark, hcolon, if_neg Bool.false_ne_true, matchNumber, hread]
  exact if_pos hvalid

theorem matchObject_render (h : s.isValid d = true) (player : Dbref) :
    s.matchObject player d.render = d :=
  matchObject_of_parse d.parse_render h player

/-- To a player, `me` is the player. -/
theorem matchObject_me {player : Dbref} (ho : s.get? player = some o) :
    s.matchObject player "me" = player := by
  have htrim : Bytes.trimBlanks "me" = "me" := Bytes.trimBlanks_eq_self (by decide +kernel)
  unfold Store.matchObject
  rw [htrim, ho]
  rfl

end Store
end Database
end Locksmith
