import Locksmith.Proofs.Lock.Acceptance

namespace Locksmith
namespace Grammar

open Escape Locksmith.Parser

abbrev Space := { s : Bytes // Blank s }

def noSpace : Space := ⟨[], blank_nil⟩

def Level.rank : Level → Nat
  | .or => 0
  | .and => 1
  | .operand => 2

/-- Whether a key of one level stands in parentheses where another level is read. -/
def Level.encloses (level content : Level) : Bool := decide (content.rank < level.rank)

inductive Wrapping where
  | spaces (before after : Space)
  | parens (before : Space) (inner : Wrapping) (after : Space)

namespace Wrapping

def wrap : Wrapping → Bytes → Bytes
  | .spaces before after, s => before.1 ++ (s ++ after.1)
  | .parens before inner after, s => before.1 ++ 40 :: (inner.wrap s ++ 41 :: after.1)

def isBare : Wrapping → Bool
  | .spaces _ after => after.1.isEmpty
  | .parens .. => false

def enclosing : Wrapping → (needed : Bool) → Wrapping
  | .spaces before after, true => .parens before (.spaces noSpace noSpace) after
  | w, _ => w

def level : Wrapping → Level → Level
  | .spaces .., level => level
  | .parens .., _ => .or

theorem enclosing_false (w : Wrapping) : w.enclosing false = w := by
  cases w with
  | spaces => rfl
  | parens => rfl

theorem enclosing_parens (before : Space) (inner : Wrapping) (after : Space) (needed : Bool) :
    (parens before inner after).enclosing needed = parens before inner after := rfl

theorem enclosing_enclosing (w : Wrapping) {a b : Bool} (h : b = true → a = true) :
    (w.enclosing a).enclosing b = w.enclosing a := by
  cases w with
  | parens => rfl
  | spaces before after =>
    cases a with
    | true => rfl
    | false =>
      cases b with
      | true => exact absurd (h rfl) Bool.false_ne_true
      | false => rfl

theorem encloses_enclosing (w : Wrapping) (level content : Level) :
    ((w.enclosing (level.encloses content)).level level).encloses content = false := by
  cases w with
  | parens => rfl
  | spaces before after =>
    rcases h : level.encloses content with _ | _
    · exact h
    · rfl

end Wrapping

inductive Layout where
  | leaf (w : Wrapping) (text : Bytes)
  | not (w : Wrapping) (operand : Layout)
  | and (w : Wrapping) (left right : Layout)
  | or (w : Wrapping) (left right : Layout)

def Layout.text : Layout → Level → Bytes
  | .leaf w text, _ => w.wrap text
  | .not w operand, _ => w.wrap (33 :: operand.text .operand)
  | .and w left right, level =>
    (w.enclosing (level.encloses .and)).wrap (left.text .operand ++ 38 :: right.text .and)
  | .or w left right, level =>
    (w.enclosing (level.encloses .or)).wrap (left.text .and ++ 124 :: right.text .or)

/-- The layout writes the key, which has no offsets. Where `last` holds nothing follows its
text. -/
inductive Lays (ctx : ParseContext) : Level → (last : Bool) → Layout → Key → Prop where
  | leaf {level : Level} {last : Bool} {w : Wrapping} {pos : Nat} {text : Bytes} {key : Key}
      (leaf : Leaf ctx pos text key)
      (closed : pending false text = true → (last && w.isBare) = true) :
      Lays ctx level last (.leaf w text) key.erase
  | not {level : Level} {last : Bool} {w : Wrapping} {operand : Layout} {key : Key}
      (lays : Lays ctx .operand (last && w.isBare) operand key) :
      Lays ctx level last (.not w operand) (.not 0 key)
  | and {level : Level} {last : Bool} {w : Wrapping} {left right : Layout} {a b : Key}
      (first : Lays ctx .operand false left a)
      (more : Lays ctx .and (last && (w.enclosing (level.encloses .and)).isBare) right b) :
      Lays ctx level last (.and w left right) (.and 0 a b)
  | or {level : Level} {last : Bool} {w : Wrapping} {left right : Layout} {a b : Key}
      (first : Lays ctx .and false left a)
      (more : Lays ctx .or (last && (w.enclosing (level.encloses .or)).isBare) right b) :
      Lays ctx level last (.or w left right) (.or 0 a b)

variable {ctx : ParseContext} {level content : Level} {last : Bool} {pos : Nat}
  {s t space back text : Bytes} {key left right : Key} {w : Wrapping} {layout : Layout}

theorem Derives.loosen (h : Derives ctx content last pos s key)
    (hlevel : level.encloses content = false) : Derives ctx level last pos s key := by
  cases level with
  | or =>
    cases content with
    | or => exact h
    | and => exact .oneOr h
    | operand => exact .oneOr (.oneAnd h)
  | and =>
    cases content with
    | or => cases hlevel
    | and => exact h
    | operand => exact .oneAnd h
  | operand =>
    cases content with
    | or => cases hlevel
    | and => cases hlevel
    | operand => exact h

/-- White space before a key belongs to its first operand. -/
theorem Derives.lead (h : Derives ctx level last (pos + space.length) s key)
    (hspace : Blank space) :
    Derives ctx level last pos (space ++ s) key := by
  generalize hp : pos + space.length = start at h
  have hstart {t : Bytes} : start + t.length = pos + (space ++ t).length := by
    rw [← hp, List.length_append, Nat.add_assoc]
  induction h with
  | leaf blank leaf trailing closed =>
    rw [← List.append_assoc]
    rw [hstart] at leaf
    exact .leaf (hspace.append blank) leaf trailing closed
  | group blank inner trailing =>
    rw [← List.append_assoc]
    rw [hstart] at inner
    exact .group (hspace.append blank) inner trailing
  | not blank operand =>
    rw [← List.append_assoc]
    rw [hstart] at operand ⊢
    exact .not (hspace.append blank) operand
  | oneAnd one ih => exact .oneAnd (ih hp hstart)
  | and first more ih =>
    rw [← List.append_assoc]
    rw [hstart] at more ⊢
    exact .and (ih hp hstart) more
  | oneOr one ih => exact .oneOr (ih hp hstart)
  | or first more ih =>
    rw [← List.append_assoc]
    rw [hstart] at more ⊢
    exact .or (ih hp hstart) more

/-- White space behind a key belongs to its last operand. -/
theorem Derives.trail (h : Derives ctx level (last && back.isEmpty) pos s key)
    (hback : Blank back) :
    Derives ctx level last pos (s ++ back) key := by
  rcases back with _ | ⟨b, r⟩
  · rw [List.isEmpty_nil, Bool.and_true] at h
    rwa [List.append_nil]
  -- what white space follows does not end the whole text, so its last backslash is paired
  rw [List.isEmpty_cons, Bool.and_false] at h
  generalize hlast : false = final at h
  induction h with
  | leaf blank leaf trailing closed =>
    rw [List.append_assoc, List.append_assoc]
    apply Derives.leaf blank leaf (trailing.append hback)
    intro hp
    rw [← hlast] at closed
    exact absurd (closed hp).2 Bool.false_ne_true
  | group blank inner trailing =>
    rw [List.append_assoc, List.cons_append, List.append_assoc, List.cons_append]
    exact .group blank inner (trailing.append hback)
  | not blank operand ih =>
    rw [List.append_assoc, List.cons_append]
    exact .not blank (ih hlast)
  | oneAnd one ih => exact .oneAnd (ih hlast)
  | and first more _ ih =>
    rw [List.append_assoc, List.cons_append]
    exact .and first (ih hlast)
  | oneOr one ih => exact .oneOr (ih hlast)
  | or first more _ ih =>
    rw [List.append_assoc, List.cons_append]
    exact .or first (ih hlast)

/-- Wherever the text stands, it is derived as the key, up to offsets. -/
def Derivable (ctx : ParseContext) (level : Level) (last : Bool) (s : Bytes)
    (key : Key) : Prop :=
  ∀ pos, ∃ key', key'.erase = key ∧ Derives ctx level last pos s key'

theorem Derivable.loosen (h : Derivable ctx content last s key)
    (hlevel : level.encloses content = false) : Derivable ctx level last s key := by
  intro pos
  obtain ⟨key', hkey, hderives⟩ := h pos
  exact ⟨key', hkey, hderives.loosen hlevel⟩

theorem Derivable.wrap (h : Derivable ctx (w.level level) (last && w.isBare) s key) :
    Derivable ctx level last (w.wrap s) key := by
  induction w generalizing level last with
  | spaces before after =>
    intro pos
    obtain ⟨key', hkey, hderives⟩ := h (pos + before.1.length)
    exact ⟨key', hkey, (hderives.trail after.2).lead before.2⟩
  | parens before inner after ih =>
    intro pos
    have hinner : Derivable ctx (inner.level .or) (false && inner.isBare) s key := by
      cases inner with
      | spaces =>
        simpa only [Wrapping.isBare, Wrapping.level, Bool.and_false, Bool.false_and] using h
      | parens =>
        simpa only [Wrapping.isBare, Wrapping.level, Bool.and_false, Bool.false_and] using h
    obtain ⟨key', hkey, hderives⟩ := ih hinner (pos + before.1.length + 1)
    have hgroup : Derives ctx .operand last pos _ key' := .group before.2 hderives after.2
    refine ⟨key', hkey, hgroup.loosen ?_⟩
    cases level with
    | or => rfl
    | and => rfl
    | operand => rfl

theorem Leaf.move (h : Leaf ctx pos text key) (pos' : Nat) :
    ∃ key', key'.erase = key.erase ∧ Leaf ctx pos' text key' := by
  cases h with
  | key atom first spells =>
    have hspells : ∃ key', key'.erase = key.erase ∧ Spells ctx pos' text key' := by
      cases spells with
      | bool value h => exact ⟨.bool pos' value, rfl, .bool value h⟩
      | @const d h => exact ⟨.const pos' d, rfl, .const h⟩
      | @attr name pattern h => exact ⟨.attr pos' name.toUpper pattern, rfl, .attr h⟩
      | @eval name pattern h => exact ⟨.eval pos' name.toUpper pattern, rfl, .eval h⟩
      | @flagClass name pattern h known =>
        exact ⟨.flagClass pos' name.toUpper pattern, rfl, .flagClass h known⟩
    obtain ⟨key', hkey, hspells⟩ := hspells
    exact ⟨key', hkey, .key atom first hspells⟩
  | @indirect _ _ lock d blank atom first leads =>
    exact ⟨.indirect pos' d lock, rfl, .indirect blank atom first leads⟩
  | @object _ make _ _ d takes blank atom first names =>
    refine ⟨make pos' d, ?_, .object takes blank atom first names⟩
    cases takes with
    | is => rfl
    | carry => rfl
    | owner => rfl

/-- A layout of a key is derived as that key. -/
theorem Lays.derivable (h : Lays ctx level last layout key) :
    Derivable ctx level last (layout.text level) key := by
  have hoperand {level : Level} (w : Wrapping) : (w.level level).encloses .operand = false := by
    cases w.level level with
    | or => rfl
    | and => rfl
    | operand => rfl
  induction h with
  | @leaf level last w _ text key leaf closed =>
    have hinner : Derivable ctx .operand (last && w.isBare) text key.erase := by
      intro pos
      obtain ⟨key', hkey, hleaf⟩ := leaf.move pos
      have hderives : Derives ctx .operand (last && w.isBare) pos ([] ++ (text ++ [])) key' :=
        .leaf blank_nil hleaf blank_nil fun hp => ⟨rfl, closed hp⟩
      rw [List.append_nil] at hderives
      exact ⟨key', hkey, hderives⟩
    exact (hinner.loosen (hoperand w)).wrap
  | @not level last w operand key _ ih =>
    have hinner :
        Derivable ctx .operand (last && w.isBare) (33 :: operand.text .operand)
          (.not 0 key) := by
      intro pos
      obtain ⟨key', rfl, hderives⟩ := ih (pos + 1)
      exact ⟨.not pos key', rfl, .not blank_nil hderives⟩
    exact (hinner.loosen (hoperand w)).wrap
  | @and level last w left right a b _ _ ihl ihr =>
    have hinner : Derivable ctx .and (last && (w.enclosing (level.encloses .and)).isBare)
        (left.text .operand ++ 38 :: right.text .and) (.and 0 a b) := by
      intro pos
      obtain ⟨a', rfl, hleft⟩ := ihl pos
      obtain ⟨b', rfl, hright⟩ := ihr (pos + (left.text .operand).length + 1)
      exact ⟨.and _ a' b', rfl, .and hleft hright⟩
    exact (hinner.loosen (w.encloses_enclosing level .and)).wrap
  | @or level last w left right a b _ _ ihl ihr =>
    have hinner : Derivable ctx .or (last && (w.enclosing (level.encloses .or)).isBare)
        (left.text .and ++ 124 :: right.text .or) (.or 0 a b) := by
      intro pos
      obtain ⟨a', rfl, hleft⟩ := ihl pos
      obtain ⟨b', rfl, hright⟩ := ihr (pos + (left.text .and).length + 1)
      exact ⟨.or _ a' b', rfl, .or hleft hright⟩
    exact (hinner.loosen (w.encloses_enclosing level .or)).wrap

theorem Lays.loosen (h : Lays ctx content last layout key)
    (hlevel : level.encloses content = false) :
    ∃ layout', Lays ctx level last layout' key ∧ layout'.text level = layout.text content := by
  have hw (w : Wrapping) (inner : Level) :
      (w.enclosing (content.encloses inner)).enclosing (level.encloses inner) =
        w.enclosing (content.encloses inner) := by
    apply w.enclosing_enclosing
    simp only [Level.encloses, decide_eq_true_eq, decide_eq_false_iff_not] at hlevel ⊢
    omega
  cases h with
  | leaf leaf closed => exact ⟨_, .leaf leaf closed, rfl⟩
  | not operand => exact ⟨_, .not operand, rfl⟩
  | @and _ _ w left right a b hl hr =>
    refine ⟨.and (w.enclosing (content.encloses .and)) left right, .and hl ?_, ?_⟩
    · rwa [hw]
    · rw [Layout.text, hw, Layout.text]
  | @or _ _ w left right a b hl hr =>
    refine ⟨.or (w.enclosing (content.encloses .or)) left right, .or hl ?_, ?_⟩
    · rwa [hw]
    · rw [Layout.text, hw, Layout.text]

theorem Lays.group (h : Lays ctx .or false layout key) (before after : Space) (last : Bool) :
    ∃ layout', Lays ctx .operand last layout' key ∧
      layout'.text .operand = before.1 ++ 40 :: (layout.text .or ++ 41 :: after.1) := by
  cases h with
  | @leaf _ _ w _ text _ leaf closed =>
    exact ⟨.leaf (.parens before w after) text,
      .leaf leaf fun hp => absurd (closed hp) Bool.false_ne_true, rfl⟩
  | @not _ _ w operand _ h =>
    refine ⟨.not (.parens before w after) operand, .not ?_, rfl⟩
    rwa [Wrapping.isBare, Bool.and_false]
  | @and _ _ w left right a b hl hr =>
    refine ⟨.and (.parens before w after) left right, .and hl ?_, ?_⟩
    · rwa [Wrapping.enclosing_parens, Wrapping.isBare, Bool.and_false]
    · rw [Layout.text, Wrapping.enclosing_parens, Layout.text,
        show Level.encloses .or _ = false from rfl, w.enclosing_false]
      rfl
  | @or _ _ w left right a b hl hr =>
    refine ⟨.or (.parens before w after) left right, .or hl ?_, ?_⟩
    · rwa [Wrapping.enclosing_parens, Wrapping.isBare, Bool.and_false]
    · rw [Layout.text, Wrapping.enclosing_parens, Layout.text,
        show Level.encloses .or _ = false from rfl, w.enclosing_false]
      rfl

/-- What is derived as a key is a layout of it. -/
theorem Derives.lays (h : Derives ctx level last pos s key) :
    ∃ layout, Lays ctx level last layout key.erase ∧ layout.text level = s := by
  induction h with
  | @leaf last pos space text back key blank leaf trailing closed =>
    refine ⟨.leaf (.spaces ⟨space, blank⟩ ⟨back, trailing⟩) text, .leaf leaf ?_, rfl⟩
    intro hp
    obtain ⟨rfl, rfl⟩ := closed hp
    rfl
  | @group last pos space s back key blank inner trailing ih =>
    obtain ⟨layout, hlays, rfl⟩ := ih
    exact hlays.group ⟨space, blank⟩ ⟨back, trailing⟩ last
  | @not last pos space s key blank operand ih =>
    obtain ⟨layout, hlays, rfl⟩ := ih
    refine ⟨.not (.spaces ⟨space, blank⟩ noSpace) layout, .not ?_, ?_⟩
    · rwa [show Wrapping.isBare _ = true from rfl, Bool.and_true]
    · rw [Layout.text, Wrapping.wrap, noSpace, List.append_nil]
  | oneAnd one ih =>
    obtain ⟨layout, hlays, rfl⟩ := ih
    exact hlays.loosen rfl
  | and first more ihl ihr =>
    obtain ⟨left, hleft, rfl⟩ := ihl
    obtain ⟨right, hright, rfl⟩ := ihr
    refine ⟨.and (.spaces noSpace noSpace) left right, .and hleft ?_, ?_⟩
    · rwa [show (Wrapping.enclosing _ _).isBare = true from rfl, Bool.and_true]
    · exact List.append_nil _
  | oneOr one ih =>
    obtain ⟨layout, hlays, rfl⟩ := ih
    exact hlays.loosen rfl
  | or first more ihl ihr =>
    obtain ⟨left, hleft, rfl⟩ := ihl
    obtain ⟨right, hright, rfl⟩ := ihr
    refine ⟨.or (.spaces noSpace noSpace) left right, .or hleft ?_, ?_⟩
    · rwa [show (Wrapping.enclosing _ _).isBare = true from rfl, Bool.and_true]
    · exact List.append_nil _

/-- The parser accepts the texts that the grammar derives, each as the one key that is derived
from it: a blank text as no key, and for every key the texts that lay it out, with any white
space and any parentheses around its parts. -/
theorem parse_iff_derives (ctx : ParseContext) (s : Bytes) :
    (Key.parse ctx s = .ok none ↔ Blank s) ∧
      (∀ key, Key.parse ctx s = .ok (some key) ↔ Derives ctx .or true 0 s key) ∧
      (∀ key key', Derives ctx .or true 0 s key → Derives ctx .or true 0 s key' → key = key') ∧
      (∀ layout key, Lays ctx .or true layout key →
        ∃ key', Key.parse ctx (layout.text .or) = .ok (some key') ∧ key'.erase = key) ∧
      (∀ key, Key.parse ctx s = .ok (some key) →
        ∃ layout, Lays ctx .or true layout key.erase ∧ layout.text .or = s) := by
  refine ⟨parse_eq_none_iff, fun key => parse_eq_some_iff, ?_, ?_, ?_⟩
  · intro key key' h h'
    have hparse := parse_eq_some_iff.2 h
    rw [parse_eq_some_iff.2 h'] at hparse
    cases hparse
    rfl
  · intro layout key h
    obtain ⟨key', hkey, hderives⟩ := h.derivable 0
    exact ⟨key', parse_eq_some_iff.2 hderives, hkey⟩
  · intro key h
    exact (parse_eq_some_iff.1 h).lays

end Grammar
end Locksmith
