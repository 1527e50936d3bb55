import Locksmith.Proofs.Lock.ReadBack

namespace Locksmith
namespace Escape

def Blank (s : Bytes) : Prop := ∀ b ∈ s, isSpace b = true

/-- `s` is `text` with white space around it; white space that is escaped belongs to the text.
-/
def Padded (text s : Bytes) : Prop :=
  ∃ front back, s = front ++ (text ++ back) ∧ Blank front ∧ Blank back ∧ Trimmed text ∧
    (pending false text = true → back = [])

theorem blank_nil : Blank [] := List.forall_mem_nil _

theorem Blank.append {s t : Bytes} (hs : Blank s) (ht : Blank t) : Blank (s ++ t) := by
  intro b hb
  rcases List.mem_append.1 hb with hb | hb
  · exact hs b hb
  · exact ht b hb

theorem Blank.pending {s : Bytes} (h : Blank s) : pending false s = false := pending_spaces h

theorem Blank.clear {s : Bytes} (h : Blank s) : Clear endsKey false s := by
  apply clear_of_forall
  intro b hb
  rcases hends : endsKey b with _ | _
  · rfl
  · have hspace := h b hb
    rw [Parser.isSpace_of_endsKey hends] at hspace
    cases hspace

theorem Blank.dropWhile_append {s : Bytes} (h : Blank s) (t : Bytes) :
    (s ++ t).dropWhile isSpace = t.dropWhile isSpace := by
  rw [List.dropWhile_append_of_pos h]

theorem Blank.takeWhile_append {s : Bytes} (h : Blank s) (t : Bytes) :
    (s ++ t).takeWhile isSpace = s ++ t.takeWhile isSpace := by
  rw [List.takeWhile_append_of_pos h]

theorem dropSpaces_append {s back : Bytes} (hback : Blank back)
    (hclosed : pending false s = true → back = []) :
    dropSpaces (s ++ back).reverse = dropSpaces s.reverse := by
  induction back using List.reverseRecOn with
  | nil => rw [List.append_nil]
  | append_singleton back b ih =>
    have hs : pending false s = false := by
      rcases hp : pending false s with _ | _
      · rfl
      · exact absurd (hclosed hp)
          (List.append_ne_nil_of_right_ne_nil back (List.cons_ne_nil b []))
    have hblank : Blank back := fun c hc => hback c (List.mem_append_left _ hc)
    have hpend : pending false (s ++ back) = false := by rw [pending_append, hs, hblank.pending]
    have hb : isSpace b = true := hback b (List.mem_append_right _ (List.mem_singleton_self b))
    rw [← List.append_assoc, List.reverse_concat, dropSpaces_cons, List.reverse_reverse,
      hpend, hb]
    exact ih hblank fun hp => absurd (hs.symm.trans hp) Bool.false_ne_true

theorem trim_append {front text back : Bytes} (hfront : Blank front) (hback : Blank back)
    (htext : Trimmed text) (hclosed : pending false text = true → back = []) :
    trim (front ++ (text ++ back)) = text := by
  rw [trim, hfront.dropWhile_append]
  have hdrop : dropSpaces ((text ++ back).dropWhile isSpace).reverse = text.reverse := by
    rcases text with _ | ⟨b, r⟩
    · have hnil : back.dropWhile isSpace = [] := List.dropWhile_eq_nil_iff.2 hback
      rw [List.nil_append, hnil]
      rfl
    · have hhead : ((b :: r) ++ back).dropWhile isSpace = (b :: r) ++ back := by
        rw [List.cons_append, List.dropWhile_cons_of_neg]
        rw [htext.head b r rfl]
        exact Bool.false_ne_true
      have htrim := htext.trim_eq
      rw [trim, htext.dropWhile, List.reverse_eq_iff] at htrim
      rw [hhead, dropSpaces_append hback hclosed, htrim]
  rw [hdrop, List.reverse_reverse]

theorem padded_iff {text s : Bytes} : Padded text s ↔ trim s = text := by
  constructor
  · rintro ⟨front, back, rfl, hfront, hback, htext, hclosed⟩
    exact trim_append hfront hback htext hclosed
  · rintro rfl
    obtain ⟨front, back, hs, hfront, hback, hpend, htext⟩ := trim_spec s
    refine ⟨front, back, hs, hfront, hback, htext, fun hp => ?_⟩
    rcases List.eq_nil_or_concat' back with rfl | ⟨back, b, rfl⟩
    · rfl
    · -- white space at the end is not a backslash, so nothing is pending behind it
      have hb := hback b (List.mem_append_right _ (List.mem_singleton_self b))
      rw [hpend, hs, ← List.append_assoc, ← List.append_assoc, pending_concat,
        isSpace_ne_backslash hb, Bool.and_false] at hp
      cases hp

theorem unescape_eq_nil {s : Bytes} : unescape s = [] ↔ s = [] := by
  fun_cases unescape s with
  | case1 => simp
  | case2 => simp
  | case3 b c r hb => simp
  | case4 b c r hb => simp

end Escape

namespace Grammar

open Escape Locksmith.Parser

/-- The first unescaped byte of `s` that satisfies `p` is `b`, between `before` and `after`. -/
structure FirstOf (p : UInt8 → Bool) (s before : Bytes) (b : UInt8) (after : Bytes) : Prop where
  split : s = before ++ b :: after
  clear : Clear p false before
  closed : pending false before = false
  hit : p b = true

theorem cut_eq_some_iff {p : UInt8 → Bool} (hp : p backslash = false) {s before after : Bytes}
    {b : UInt8} :
    cut p s = some (before, b, after) ↔ FirstOf p s before b after := by
  constructor
  · intro h
    obtain ⟨hs, hclear, hpend, hb⟩ := cut_eq_some hp h
    exact ⟨hs, hclear, hpend, hb⟩
  · rintro ⟨rfl, hclear, hpend, hb⟩
    exact cut_append_eq hp hclear hpend hb

theorem cut_eq_none_iff {p : UInt8 → Bool} (hp : p backslash = false) {s : Bytes} :
    cut p s = none ↔ Clear p false s := by
  constructor
  · intro h
    have happ := Parser.span_append p s
    have hclear := (span_spec hp s).1
    unfold cut at h
    split at h
    · rename_i hspan
      rw [hspan, List.append_nil] at happ
      rw [hspan] at hclear
      rwa [← happ]
    · cases h
  · exact cut_eq_none hp

/-- The object that a text means. -/
inductive Means (ctx : ParseContext) (text : Bytes) (d : Dbref) : Prop where
  | number (mode : ctx.loading = true ∨ ctx.matcher = none)
      (parsed : Dbref.parse (unescape text) = .ok d) (fits : d.fitsOperand = true)
  | name (find : Dbref → Bytes → Dbref) (mode : ctx.loading = false ∧ ctx.matcher = some find)
      (found : find ctx.subject (unescape text) = d)
      (one : d ≠ .ambiguous ∧ d ≠ .nothing ∧ d ≠ .failedMatch) (fits : d.fitsOperand = true)

/-- A text without a divider that means an object. -/
structure Names (ctx : ParseContext) (text : Bytes) (d : Dbref) : Prop where
  inconstant : isConstant text = false
  undivided : Clear dividesKey false text
  means : Means ctx text d

/-- A text that its first divider splits into a name and a pattern. -/
def Divided (text : Bytes) (divider : UInt8) (name pattern : Bytes) : Prop :=
  ∃ before after, FirstOf dividesKey text before divider after ∧ Padded name before ∧
    Padded pattern after ∧ name ≠ [] ∧ 32 ∉ name ∧ 9 ∉ name

/-- The key that a text without operators stands for, at an offset. -/
inductive Spells (ctx : ParseContext) (pos : Nat) (text : Bytes) : Key → Prop where
  | bool (value : Bool) (h : text.equalsFold (if value then "#true" else "#false") = true) :
      Spells ctx pos text (.bool pos value)
  | const {d : Dbref} (h : Names ctx text d) : Spells ctx pos text (.const pos d)
  | attr {name pattern : Bytes} (h : Divided text 58 name pattern) :
      Spells ctx pos text (.attr pos name.toUpper pattern)
  | eval {name pattern : Bytes} (h : Divided text 47 name pattern) :
      Spells ctx pos text (.eval pos name.toUpper pattern)
  | flagClass {name pattern : Bytes} (h : Divided text 94 name pattern)
      (known : ctx.knows name.toUpper = true) :
      Spells ctx pos text (.flagClass pos name.toUpper pattern)

/-- The lock that the text after `@` leads to, on an object. -/
inductive Leads (ctx : ParseContext) (text : Bytes) (d : Dbref) : Bytes → Prop where
  | named {before after object name : Bytes} (h : FirstOf (· == 47) text before 47 after)
      (hobject : Padded object before) (hname : Padded name after) (hne : name ≠ [])
      (hd : Means ctx object d) : Leads ctx text d (unescape name)
  | unnamed {before after object : Bytes} (h : FirstOf (· == 47) text before 47 after)
      (hobject : Padded object before) (hname : Padded [] after) (hne : ctx.lockType ≠ [])
      (hd : Means ctx object d) : Leads ctx text d ctx.lockType
  | alone {object : Bytes} (h : Clear (· == 47) false text) (hobject : Padded object text)
      (hne : ctx.lockType ≠ []) (hd : Means ctx object d) : Leads ctx text d ctx.lockType

/-- The text of a key or of an object, without the white space around it. -/
structure Atom (text : Bytes) : Prop where
  ne_nil : text ≠ []
  trimmed : Trimmed text
  clear : Clear endsKey false text

/-- The operators that take an object, and the keys that they make. -/
inductive Takes : UInt8 → (Nat → Dbref → Key) → Prop where
  | is : Takes 61 .is
  | carry : Takes 43 .carry
  | owner : Takes 36 .owner

/-- A key that no other key is part of, from its first byte to its last. -/
inductive Leaf (ctx : ParseContext) (pos : Nat) : Bytes → Key → Prop where
  | key {text : Bytes} {key : Key} (atom : Atom text)
      (first : ∀ b r, text = b :: r → isOperator b = false) (spells : Spells ctx pos text key) :
      Leaf ctx pos text key
  | indirect {space text lock : Bytes} {d : Dbref} (blank : Blank space) (atom : Atom text)
      (first : text.head? ≠ some 40) (leads : Leads ctx text d lock) :
      Leaf ctx pos (64 :: (space ++ text)) (.indirect pos d lock)
  | object {operator : UInt8} {make : Nat → Dbref → Key} {space text : Bytes} {d : Dbref}
      (takes : Takes operator make) (blank : Blank space) (atom : Atom text)
      (first : text.head? ≠ some 40) (names : Names ctx text d) :
      Leaf ctx pos (operator :: (space ++ text)) (make pos d)

inductive Level where
  | or
  | and
  | operand

/-- At a level of the grammar, the text at an offset is derived as a key. Where `last` holds
nothing follows the text, and a backslash at its very end escapes nothing. -/
inductive Derives (ctx : ParseContext) :
    Level → (last : Bool) → (pos : Nat) → Bytes → Key → Prop where
  | leaf {last : Bool} {pos : Nat} {space text back : Bytes} {key : Key} (blank : Blank space)
      (leaf : Leaf ctx (pos + space.length) text key) (trailing : Blank back)
      (closed : pending false text = true → back = [] ∧ last = true) :
      Derives ctx .operand last pos (space ++ (text ++ back)) key
  | group {last : Bool} {pos : Nat} {space s back : Bytes} {key : Key} (blank : Blank space)
      (inner : Derives ctx .or false (pos + space.length + 1) s key) (trailing : Blank back) :
      Derives ctx .operand last pos (space ++ 40 :: (s ++ 41 :: back)) key
  | not {last : Bool} {pos : Nat} {space s : Bytes} {key : Key} (blank : Blank space)
      (operand : Derives ctx .operand last (pos + space.length + 1) s key) :
      Derives ctx .operand last pos (space ++ 33 :: s) (.not (pos + space.length) key)
  | oneAnd {last : Bool} {pos : Nat} {s : Bytes} {key : Key}
      (one : Derives ctx .operand last pos s key) : Derives ctx .and last pos s key
  | and {last : Bool} {pos : Nat} {s t : Bytes} {left right : Key}
      (first : Derives ctx .operand false pos s left)
      (more : Derives ctx .and last (pos + s.length + 1) t right) :
      Derives ctx .and last pos (s ++ 38 :: t) (.and (pos + s.length) left right)
  | oneOr {last : Bool} {pos : Nat} {s : Bytes} {key : Key}
      (one : Derives ctx .and last pos s key) : Derives ctx .or last pos s key
  | or {last : Bool} {pos : Nat} {s t : Bytes} {left right : Key}
      (first : Derives ctx .and false pos s left)
      (more : Derives ctx .or last (pos + s.length + 1) t right) :
      Derives ctx .or last pos (s ++ 124 :: t) (.or (pos + s.length) left right)

variable {ctx : ParseContext} {c : Cursor} {text : Bytes} {d : Dbref}

theorem resolve_iff : (∃ asked, resolve ctx c text = .ok (d, asked)) ↔ Means ctx text d := by
  constructor
  · rintro ⟨asked, h⟩
    have hfits := resolve_fits h
    rw [resolve] at h
    dsimp only at h
    split at h
    · rename_i hmode
      have hnumber : ctx.loading = true ∨ ctx.matcher = none := by
        split at hmode
        · exact .inl ‹_›
        · exact .inr hmode
      split at h
      · rename_i id hparse
        split at h
        · cases h
          exact .number hnumber hparse hfits
        · cases h
      · cases h
    · rename_i find hmode
      have hname : ctx.loading = false ∧ ctx.matcher = some find := by
        split at hmode
        · cases hmode
        · exact ⟨Bool.eq_false_iff.2 ‹_›, hmode⟩
      split at h
      · cases h
      · rename_i hone
        split at h
        · cases h
        · rename_i hother
          split at h
          · cases h
            rw [beq_iff_eq] at hone
            rw [Bool.or_eq_true, beq_iff_eq, beq_iff_eq, not_or] at hother
            exact .name find hname rfl ⟨hone, hother⟩ hfits
          · cases h
  · rintro (⟨hmode, hparse, hfits⟩ | ⟨find, hmode, rfl, hone, hfits⟩)
    · have hnone : (if ctx.loading then none else ctx.matcher) = none := by
        rcases hmode with h | h
        · rw [h]
          rfl
        · rw [h, ite_self]
      refine ⟨c.asked, ?_⟩
      rw [resolve, hnone]
      dsimp only
      rw [hparse]
      exact if_pos hfits
    · refine ⟨unescape text :: c.asked, ?_⟩
      rw [resolve, hmode.1, hmode.2]
      dsimp only
      rw [if_neg Bool.false_ne_true]
      dsimp only
      rw [if_neg (by simpa using hone.1), if_neg (by simpa using hone.2), if_pos hfits]

theorem map_resolve_iff {α : Type} {f : Dbref × List Bytes → α} {a : α} :
    (resolve ctx c text).map f = .ok a ↔
    ∃ d asked, resolve ctx c text = .ok (d, asked) ∧ f (d, asked) = a := by
  rcases resolve ctx c text with e | ⟨d, asked⟩
  · constructor
    · intro h
      cases h
    · rintro ⟨_, _, h, -⟩
      cases h
  · constructor
    · intro h
      cases h
      exact ⟨d, asked, rfl, rfl⟩
    · rintro ⟨_, _, h, rfl⟩
      cases h
      rfl

theorem readObject_iff {operator : UInt8} :
    (∃ asked, readObject ctx c operator text = .ok (d, asked)) ↔ Names ctx text d := by
  rw [readObject]
  constructor
  · rintro ⟨asked, h⟩
    split at h
    · cases h
    · rename_i hplain
      rw [Bool.or_eq_true, not_or, Bool.not_eq_true, Bool.not_eq_true,
        Option.isSome_eq_false_iff, Option.isNone_iff_eq_none,
        cut_eq_none_iff dividesKey_backslash] at hplain
      exact ⟨hplain.1, hplain.2, resolve_iff.1 ⟨asked, h⟩⟩
  · rintro ⟨hconstant, hclear, hmeans⟩
    rw [hconstant, (cut_eq_none_iff dividesKey_backslash).2 hclear]
    exact resolve_iff.2 hmeans

theorem equalsFold_trans {s t u : Bytes} (hst : s.equalsFold t = true)
    (hsu : s.equalsFold u = true) : t.equalsFold u = true := by
  rw [Bytes.equalsFold, beq_iff_eq] at *
  exact hst.symm.trans hsu

theorem isConstant_of_divided {divider : UInt8} {name pattern : Bytes}
    (h : Divided text divider name pattern) : isConstant text = false := by
  obtain ⟨before, after, hcut, -⟩ := h
  have hmem : divider ∈ text := hcut.split ▸ List.mem_append_right _ List.mem_cons_self
  apply isConstant_eq_false hmem
  rw [isTelling, hcut.hit, Bool.or_true]

theorem divided_iff {divider : UInt8} {name pattern : Bytes} :
    Divided text divider name pattern ↔
      ∃ before after, cut dividesKey text = some (before, divider, after) ∧ trim before = name ∧
        trim after = pattern ∧
        (name.isEmpty || name.any fun b => b == 32 || b == 9) = false := by
  have hname : (name.isEmpty || name.any fun b => b == 32 || b == 9) = false ↔
      name ≠ [] ∧ 32 ∉ name ∧ 9 ∉ name := by
    rw [Bool.or_eq_false_iff, List.isEmpty_eq_false_iff, List.any_eq_false]
    apply and_congr_right
    intro _
    constructor
    · intro h
      exact ⟨fun hm => h 32 hm rfl, fun hm => h 9 hm rfl⟩
    · rintro ⟨h32, h9⟩ b hb hspace
      rw [Bool.or_eq_true, beq_iff_eq, beq_iff_eq] at hspace
      rcases hspace with rfl | rfl
      · exact h32 hb
      · exact h9 hb
  simp only [Divided, cut_eq_some_iff dividesKey_backslash, padded_iff, hname]

theorem readKey_of_constant {value : Bool}
    (h : text.equalsFold (if value then "#true" else "#false") = true) :
    readKey ctx c text = .ok (.bool c.pos value, c.asked) := by
  have htrue : text.equalsFold "#true" = value := by
    cases value with
    | true => exact h
    | false =>
      rcases ht : text.equalsFold "#true" with _ | _
      · rfl
      · have hboth := equalsFold_trans ht h
        revert hboth
        decide +kernel
  have hconstant : isConstant text = true := by
    rw [isConstant, htrue]
    cases value with
    | true => rfl
    | false => exact h
  rw [readKey, hconstant, if_pos rfl, htrue]

theorem readKey_of_divided {divider : UInt8} {name pattern : Bytes}
    (h : Divided text divider name pattern) :
    readKey ctx c text =
      if divider == 58 then .ok (.attr c.pos name.toUpper pattern, c.asked)
      else if divider == 47 then .ok (.eval c.pos name.toUpper pattern, c.asked)
      else if ctx.knows name.toUpper then .ok (.flagClass c.pos name.toUpper pattern, c.asked)
      else c.fail (.unknownClass name.toUpper) := by
  obtain ⟨before, after, hcut, rfl, rfl, hname⟩ := divided_iff.1 h
  rw [readKey, isConstant_of_divided h, if_neg Bool.false_ne_true, hcut]
  dsimp only
  rw [hname, if_neg Bool.false_ne_true]
  rfl

theorem spells_of_divided {divider : UInt8} {name pattern : Bytes} {key : Key}
    {asked : List Bytes} (h : Divided text divider name pattern)
    (hdivider : dividesKey divider = true)
    (hread : readKey ctx c text = .ok (key, asked)) : Spells ctx c.pos text key := by
  rw [readKey_of_divided h] at hread
  split at hread
  · rename_i h58
    cases hread
    rw [eq_of_beq h58] at h
    exact .attr h
  · split at hread
    · rename_i h47
      cases hread
      rw [eq_of_beq h47] at h
      exact .eval h
    · rename_i h58 h47
      split at hread
      · rename_i hknown
        cases hread
        have h94 : divider = 94 := by
          rw [dividesKey, Bool.eq_false_iff.2 h58, Bool.eq_false_iff.2 h47] at hdivider
          exact eq_of_beq hdivider
        rw [h94] at h
        exact .flagClass h hknown
      · cases hread

theorem spells_of_readKey {key : Key} {asked : List Bytes}
    (h : readKey ctx c text = .ok (key, asked)) : Spells ctx c.pos text key := by
  have hread := h
  rw [readKey] at h
  split at h
  · rename_i hconstant
    cases h
    apply Spells.bool
    rcases htrue : text.equalsFold "#true" with _ | _
    · rwa [isConstant, htrue, Bool.false_or] at hconstant
    · exact htrue
  · rename_i hconstant
    rw [Bool.not_eq_true] at hconstant
    split at h
    · rename_i hcut
      obtain ⟨d, asked', hresolve, hkey⟩ := map_resolve_iff.1 h
      cases hkey
      rw [cut_eq_none_iff dividesKey_backslash] at hcut
      exact .const ⟨hconstant, hcut, resolve_iff.1 ⟨_, hresolve⟩⟩
    · rename_i before divider after hcut
      dsimp only at h
      split at h
      · cases h
      · rename_i hname
        rw [Bool.not_eq_true] at hname
        exact spells_of_divided (divided_iff.2 ⟨before, after, hcut, rfl, rfl, hname⟩)
          ((cut_eq_some_iff dividesKey_backslash).1 hcut).hit hread

theorem readKey_iff {key : Key} :
    (∃ asked, readKey ctx c text = .ok (key, asked)) ↔ Spells ctx c.pos text key := by
  constructor
  · rintro ⟨asked, h⟩
    exact spells_of_readKey h
  · intro h
    cases h with
    | bool value h => exact ⟨c.asked, readKey_of_constant h⟩
    | const h =>
      obtain ⟨asked, hresolve⟩ := resolve_iff.2 h.means
      refine ⟨asked, ?_⟩
      rw [readKey, h.inconstant, if_neg Bool.false_ne_true,
        (cut_eq_none_iff dividesKey_backslash).2 h.undivided]
      exact map_resolve_iff.2 ⟨_, asked, hresolve, rfl⟩
    | attr h => exact ⟨c.asked, readKey_of_divided h⟩
    | eval h => exact ⟨c.asked, readKey_of_divided h⟩
    | flagClass h known =>
      refine ⟨c.asked, (readKey_of_divided h).trans ?_⟩
      rw [known]
      rfl

theorem slash_backslash : (backslash == 47) = false := rfl

/-- What is made of the object and the lock name that were cut out of the text after `@`. -/
theorem named_iff {object name lock : Bytes} {asked : List Bytes} :
    (if name.isEmpty then c.fail (.needsLockName object)
      else (resolve ctx c object).map fun p => (p.1, name, p.2)) = .ok (d, lock, asked) ↔
      (name ≠ [] ∧ name = lock) ∧ resolve ctx c object = .ok (d, asked) := by
  split
  · rename_i hempty
    constructor
    · intro h
      cases h
    · rintro ⟨⟨hne, -⟩, -⟩
      exact absurd (List.isEmpty_iff.1 hempty) hne
  · rename_i hempty
    rw [map_resolve_iff]
    constructor
    · rintro ⟨d', asked', hresolve, heq⟩
      cases heq
      exact ⟨⟨fun hnil => hempty (List.isEmpty_iff.2 hnil), rfl⟩, hresolve⟩
    · rintro ⟨⟨-, rfl⟩, hresolve⟩
      exact ⟨d, asked, hresolve, rfl⟩

theorem readIndirect_iff {lock : Bytes} :
    (∃ asked, readIndirect ctx c text = .ok (d, lock, asked)) ↔ Leads ctx text d lock := by
  constructor
  · rintro ⟨asked, h⟩
    rw [readIndirect] at h
    rcases hcut : cut (· == 47) text with _ | ⟨before, b, after⟩
    · rw [hcut] at h
      rw [cut_eq_none_iff slash_backslash] at hcut
      obtain ⟨⟨hne, rfl⟩, hresolve⟩ := named_iff.1 h
      exact .alone hcut (padded_iff.2 rfl) hne (resolve_iff.1 ⟨asked, hresolve⟩)
    · rw [hcut] at h
      have hfirst := (cut_eq_some_iff slash_backslash).1 hcut
      obtain rfl := eq_of_beq hfirst.hit
      obtain ⟨⟨hne, hlock⟩, hresolve⟩ := named_iff.1 h
      have hmeans := resolve_iff.1 ⟨asked, hresolve⟩
      split at hlock
      · rename_i hempty
        rw [List.isEmpty_iff, unescape_eq_nil] at hempty
        subst hlock
        rw [if_pos (by rw [hempty]; rfl)] at hne
        exact .unnamed hfirst (padded_iff.2 rfl) (padded_iff.2 hempty) hne hmeans
      · rename_i hempty
        subst hlock
        apply Leads.named hfirst (padded_iff.2 rfl) (padded_iff.2 rfl) _ hmeans
        intro hnil
        rw [hnil] at hempty
        exact hempty rfl
  · intro h
    rw [readIndirect]
    cases h with
    | @named before after object name h hobject hname hne hd =>
      obtain ⟨asked, hresolve⟩ := resolve_iff.2 hd
      have hlock : unescape name ≠ [] := mt unescape_eq_nil.1 hne
      have hgiven :
          (if (unescape name).isEmpty then ctx.lockType else unescape name) = unescape name :=
        if_neg (mt List.isEmpty_iff.1 hlock)
      rw [(cut_eq_some_iff slash_backslash).2 h]
      dsimp only
      rw [padded_iff.1 hobject, padded_iff.1 hname]
      exact ⟨asked, named_iff.2 ⟨⟨hgiven.symm ▸ hlock, hgiven⟩, hresolve⟩⟩
    | unnamed h hobject hname hne hd =>
      obtain ⟨asked, hresolve⟩ := resolve_iff.2 hd
      rw [(cut_eq_some_iff slash_backslash).2 h]
      dsimp only
      rw [padded_iff.1 hobject, padded_iff.1 hname]
      exact ⟨asked, named_iff.2 ⟨⟨hne, rfl⟩, hresolve⟩⟩
    | alone h hobject hne hd =>
      obtain ⟨asked, hresolve⟩ := resolve_iff.2 hd
      rw [(cut_eq_none_iff slash_backslash).2 h]
      dsimp only
      rw [padded_iff.1 hobject]
      exact ⟨asked, named_iff.2 ⟨⟨hne, rfl⟩, hresolve⟩⟩

end Grammar
end Locksmith
