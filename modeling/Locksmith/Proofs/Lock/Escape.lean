import Mathlib
import Locksmith.Lock.Parser

namespace Locksmith
namespace Escape

/-- Whether a text ends in a backslash that escapes what follows it. In `e` the first byte is
escaped. -/
def pending (e : Bool) (s : Bytes) : Bool := s.foldl (fun e b => !e && b == backslash) e

theorem pending_cons (e : Bool) (b : UInt8) (s : Bytes) :
    pending e (b :: s) = pending (!e && b == backslash) s := rfl

theorem pending_append (e : Bool) (s t : Bytes) :
    pending e (s ++ t) = pending (pending e s) t :=
  List.foldl_append

theorem pending_concat (s : Bytes) (b : UInt8) :
    pending false (s ++ [b]) = (!pending false s && b == backslash) :=
  pending_append false s [b]

theorem pending_of_not_mem {s : Bytes} (h : backslash ∉ s) : pending false s = false := by
  induction s with
  | nil => rfl
  | cons b s ih =>
    rw [List.mem_cons, not_or] at h
    rw [pending_cons, beq_false_of_ne (Ne.symm h.1)]
    exact ih h.2

/-- No unescaped byte satisfies `p`. -/
def Clear (p : UInt8 → Bool) : Bool → Bytes → Prop
  | _, [] => True
  | true, _ :: r => Clear p false r
  | false, b :: r => p b = false ∧ Clear p (b == backslash) r

theorem clear_append {p : UInt8 → Bool} {e : Bool} {s t : Bytes} :
    Clear p e (s ++ t) ↔ Clear p e s ∧ Clear p (pending e s) t := by
  induction s generalizing e with
  | nil => simp [Clear, pending]
  | cons b s ih =>
    cases e with
    | true => exact ih
    | false => simp only [List.cons_append, Clear, ih, pending_cons, Bool.not_false,
        Bool.true_and, and_assoc]

theorem clear_of_forall {p : UInt8 → Bool} {s : Bytes} (h : ∀ b ∈ s, p b = false) (e : Bool) :
    Clear p e s := by
  induction s generalizing e with
  | nil => cases e <;> trivial
  | cons b s ih =>
    have ih := ih fun c hc => h c (List.mem_cons_of_mem b hc)
    cases e with
    | true => exact ih false
    | false => exact ⟨h b (List.mem_cons_self ..), ih _⟩

theorem Clear.imp {p q : UInt8 → Bool} {e : Bool} {s : Bytes} (h : Clear p e s)
    (hpq : ∀ b, p b = false → q b = false) : Clear q e s := by
  induction s generalizing e with
  | nil => cases e <;> trivial
  | cons b s ih =>
    cases e with
    | true => exact ih h
    | false => exact ⟨hpq b h.1, ih h.2⟩

theorem Clear.or {p q : UInt8 → Bool} {e : Bool} {s : Bytes} (hp : Clear p e s)
    (hq : Clear q e s) : Clear (fun b => p b || q b) e s := by
  induction s generalizing e with
  | nil => cases e <;> trivial
  | cons b s ih =>
    cases e with
    | true => exact ih hp hq
    | false => exact ⟨Bool.or_eq_false_iff.2 ⟨hp.1, hq.1⟩, ih hp.2 hq.2⟩

/-- A text that is clear of what ends it is read as a whole. -/
theorem span_append_eq {p : UInt8 → Bool} (hp : p backslash = false) {s t : Bytes}
    (hs : Clear p false s)
    (ht : t = [] ∨ pending false s = false ∧ ∃ b r, t = b :: r ∧ p b = true) :
    span p (s ++ t) = (s, t) := by
  have hne {b : UInt8} (hb : p b = true) : b ≠ backslash := by
    rintro rfl
    rw [hp] at hb
    cases hb
  induction hn : s.length using Nat.strongRecOn generalizing s with
  | ind n ih =>
    rcases s with _ | ⟨b, s⟩
    · rcases ht with rfl | ⟨-, b, r, rfl, hb⟩
      · rfl
      · rcases r with _ | ⟨c, r⟩
        · simp [span, hb, hne hb]
        · simp [span, hb, hne hb]
    · obtain ⟨hb, hs⟩ := hs
      rcases s with _ | ⟨c, s⟩
      · rcases ht with rfl | ⟨he, c, r, rfl, hc⟩
        · simp [span, hb]
        · have hb92 : b ≠ backslash := by
            rintro rfl
            cases he
          have hnil :=
            ih 0 (by subst hn; simp) (s := []) trivial (.inr ⟨rfl, c, r, rfl, hc⟩) rfl
          rw [List.nil_append] at hnil
          simp [span, hb92, hb, hnil]
      · by_cases hb92 : b = backslash
        · subst hb92
          have hrest := ih s.length (by subst hn; simp) (s := s) hs ht rfl
          simp [span, hrest]
        · rw [beq_false_of_ne hb92] at hs
          have hrest := ih (s.length + 1) (by subst hn; simp) (s := c :: s) hs ?_ rfl
          · rw [List.cons_append] at hrest
            simp [span, hb92, hb, hrest]
          · rwa [pending_cons, beq_false_of_ne hb92] at ht

/-- What is split off is clear of what ends it, and something else follows only if that ends it.
-/
theorem span_spec {p : UInt8 → Bool} (hp : p backslash = false) (s : Bytes) :
    Clear p false (span p s).1 ∧
      ((span p s).2 = [] ∨
        pending false (span p s).1 = false ∧ ∃ b r, (span p s).2 = b :: r ∧ p b = true) := by
  fun_induction span p s with
  | case1 => exact ⟨trivial, .inl rfl⟩
  | case2 b h =>
    rw [Bool.and_eq_true] at h
    exact ⟨trivial, .inr ⟨rfl, b, [], rfl, h.2⟩⟩
  | case3 b h =>
    refine ⟨⟨?_, trivial⟩, .inl rfl⟩
    by_cases hb : b = backslash
    · rw [hb, hp]
    · simpa [hb] using h
  | case4 b c r h s' t' hspan ih =>
    rw [hspan] at ih
    obtain rfl := eq_of_beq h
    refine ⟨⟨hp, ih.1⟩, ih.2⟩
  | case5 b c r h hb => exact ⟨trivial, .inr ⟨rfl, b, c :: r, rfl, hb⟩⟩
  | case6 b c r h hb s' t' hspan ih =>
    rw [hspan] at ih
    have hb92 : (b == backslash) = false := Bool.eq_false_iff.2 h
    refine ⟨⟨Bool.eq_false_iff.2 hb, ?_⟩, ?_⟩
    · rw [hb92]
      exact ih.1
    · rw [pending_cons, hb92]
      exact ih.2

theorem span_of_cut {p : UInt8 → Bool} {s before after : Bytes} {b : UInt8}
    (h : cut p s = some (before, b, after)) : span p s = (before, b :: after) := by
  unfold cut at h
  split at h
  · cases h
  · rename_i hspan
    cases h
    exact hspan

theorem cut_eq_some {p : UInt8 → Bool} (hp : p backslash = false) {s before after : Bytes}
    {b : UInt8} (h : cut p s = some (before, b, after)) :
    s = before ++ b :: after ∧ Clear p false before ∧ pending false before = false ∧
    p b = true := by
  have hspec := span_spec hp s
  have happ := Parser.span_append p s
  rw [span_of_cut h] at hspec happ
  obtain ⟨hclear, hnil | ⟨hpend, b', r, hb, hpb⟩⟩ := hspec
  · cases hnil
  · cases hb
    exact ⟨happ.symm, hclear, hpend, hpb⟩

theorem cut_append_eq {p : UInt8 → Bool} (hp : p backslash = false) {before after : Bytes}
    {b : UInt8} (h : Clear p false before) (he : pending false before = false)
    (hb : p b = true) :
    cut p (before ++ b :: after) = some (before, b, after) := by
  rw [cut, span_append_eq hp h (.inr ⟨he, b, after, rfl, hb⟩)]

theorem cut_eq_none {p : UInt8 → Bool} (hp : p backslash = false) {s : Bytes}
    (h : Clear p false s) : cut p s = none := by
  have hspan := span_append_eq hp h (.inl rfl)
  rw [List.append_nil] at hspan
  rw [cut, hspan]

/-- An odd number of backslashes at the end of a text escapes what follows it. -/
theorem pending_eq_odd (s : Bytes) :
    pending false s = ((s.reverse.takeWhile (· == backslash)).length % 2 == 1) := by
  induction s using List.reverseRecOn with
  | nil => rfl
  | append_singleton s b ih =>
    rw [pending_concat, ih, List.reverse_concat, List.takeWhile_cons]
    by_cases hb : b = backslash
    · subst hb
      simp only [beq_self_eq_true, if_true, List.length_cons, Bool.and_true]
      rcases Nat.mod_two_eq_zero_or_one (s.reverse.takeWhile (· == backslash)).length with h | h
      · rw [h, Nat.add_mod, h]
        rfl
      · rw [h, Nat.add_mod, h]
        rfl
    · simp [hb]

/-- No white space stands at the start of a text, and none but escaped one at its end. -/
structure Trimmed (s : Bytes) : Prop where
  head : ∀ b r, s = b :: r → isSpace b = false
  last : ∀ r b, s = r ++ [b] → isSpace b = true → pending false r = true

theorem isSpace_ne_backslash {b : UInt8} (h : isSpace b = true) : (b == backslash) = false := by
  refine beq_false_of_ne ?_
  rintro rfl
  cases h

theorem pending_spaces {s : Bytes} (h : ∀ b ∈ s, isSpace b = true) :
    pending false s = false := by
  refine pending_of_not_mem fun hm => ?_
  have := h _ hm
  cases this

/-- The parity of the backslashes before it tells whether white space is escaped. -/
theorem dropSpaces_cons (b : UInt8) (r : Bytes) :
    dropSpaces (b :: r) = if isSpace b &&
      !pending false r.reverse then dropSpaces r else b :: r := by
  rw [dropSpaces, pending_eq_odd, List.reverse_reverse]
  rcases Nat.mod_two_eq_zero_or_one (r.takeWhile (· == backslash)).length with h | h
  · rw [h]
    rfl
  · rw [h]
    rfl

theorem dropSpaces_spec (r : Bytes) :
    ∃ back, r = back ++ dropSpaces r ∧ (∀ b ∈ back, isSpace b = true) ∧
      pending false (dropSpaces r).reverse = pending false r.reverse ∧
      ∀ b r', dropSpaces r = b :: r' → isSpace b = true → pending false r'.reverse = true := by
  induction r with
  | nil => exact ⟨[], rfl, nofun, rfl, nofun⟩
  | cons b r ih =>
    rw [dropSpaces_cons]
    split
    · rename_i h
      rw [Bool.and_eq_true, Bool.not_eq_true'] at h
      obtain ⟨back, hr, hback, hpend, hlast⟩ := ih
      refine ⟨b :: back, congrArg (b :: ·) hr, ?_, ?_, hlast⟩
      · intro c hc
        rcases List.mem_cons.1 hc with rfl | hc
        · exact h.1
        · exact hback c hc
      · rw [hpend, List.reverse_cons, pending_concat, isSpace_ne_backslash h.1, h.2]
        rfl
    · rename_i h
      refine ⟨[], rfl, nofun, rfl, ?_⟩
      intro b' r' he hb
      cases he
      rwa [hb, Bool.true_and, Bool.not_eq_true', Bool.not_eq_false] at h

theorem trim_spec (s : Bytes) :
    ∃ front back, s = front ++ (trim s ++ back) ∧ (∀ b ∈ front, isSpace b = true) ∧
      (∀ b ∈ back, isSpace b = true) ∧ pending false (trim s) = pending false s ∧
      Trimmed (trim s) := by
  obtain ⟨back, hr, hback, hpend, hlast⟩ := dropSpaces_spec (s.dropWhile isSpace).reverse
  have hrest : s.dropWhile isSpace = trim s ++ back.reverse := by
    rw [trim, ← List.reverse_append, ← hr, List.reverse_reverse]
  have hfront : ∀ b ∈ s.takeWhile isSpace, isSpace b = true := fun b hb =>
    List.mem_takeWhile_imp hb
  refine ⟨s.takeWhile isSpace, back.reverse, ?_, hfront, ?_, ?_, ?_, ?_⟩
  · rw [← hrest, List.takeWhile_append_dropWhile]
  · simpa using hback
  · rw [trim, hpend, List.reverse_reverse]
    conv => rhs; rw [← List.takeWhile_append_dropWhile (p := isSpace) (l := s)]
    rw [pending_append, pending_spaces hfront]
  · intro b r he
    rw [he] at hrest
    have := List.head?_dropWhile_not isSpace s
    rw [hrest] at this
    simpa using this
  · intro r b he hb
    have hd : dropSpaces (s.dropWhile isSpace).reverse = b :: r.reverse := by
      rw [trim] at he
      rw [← List.reverse_reverse (dropSpaces _), he, List.reverse_concat]
    have := hlast b r.reverse hd hb
    rwa [List.reverse_reverse] at this

theorem trim_trimmed (s : Bytes) : Trimmed (trim s) := by
  obtain ⟨-, -, -, -, -, -, h⟩ := trim_spec s
  exact h

theorem pending_trim (s : Bytes) : pending false (trim s) = pending false s := by
  obtain ⟨-, -, -, -, -, h, -⟩ := trim_spec s
  exact h

theorem Clear.trim {p : UInt8 → Bool} {s : Bytes} (h : Clear p false s) :
    Clear p false (trim s) := by
  obtain ⟨front, back, he, hfront, -, -, -⟩ := trim_spec s
  rw [he, clear_append, pending_spaces hfront, clear_append] at h
  exact h.2.1

theorem trim_head {s r r' : Bytes} {b b' : UInt8} (h : trim s = b :: r) (hs : s = b' :: r')
    (hb : isSpace b' = false) : b = b' := by
  obtain ⟨front, back, he, hfront, -⟩ := trim_spec s
  rw [h, hs] at he
  rcases front with _ | ⟨f, front⟩
  · cases he
    rfl
  · cases he
    rw [hfront b' (List.mem_cons_self ..)] at hb
    cases hb

theorem trim_subset {s : Bytes} {b : UInt8} (h : b ∈ trim s) : b ∈ s := by
  obtain ⟨front, back, he, -⟩ := trim_spec s
  rw [he]
  simp [h]

theorem Trimmed.of_forall {s : Bytes} (h : ∀ b ∈ s, isSpace b = false) : Trimmed s := by
  constructor
  · rintro b r rfl
    exact h b (List.mem_cons_self ..)
  · rintro r b rfl hb
    rw [h b (by simp)] at hb
    cases hb

theorem Trimmed.append {s t : Bytes} {b : UInt8} (hs : Trimmed s) (hb : isSpace b = false)
    (hpend : pending false s = false) (hb' : b ≠ backslash) (ht : Trimmed t) :
    Trimmed (s ++ b :: t) := by
  constructor
  · intro c r h
    rcases s with _ | ⟨a, s⟩
    · cases h
      exact hb
    · cases h
      exact hs.head _ _ rfl
  · intro r c h hc
    rcases List.eq_nil_or_concat' t with rfl | ⟨t', d, rfl⟩
    · obtain ⟨-, hcb⟩ := List.append_inj' h rfl
      cases hcb
      rw [hb] at hc
      cases hc
    · rw [← List.cons_append, ← List.append_assoc] at h
      obtain ⟨rfl, hcd⟩ := List.append_inj' h rfl
      cases hcd
      rw [pending_append, hpend, pending_cons, beq_false_of_ne hb']
      exact ht.last t' c rfl hc

theorem Trimmed.dropWhile {s : Bytes} (h : Trimmed s) : s.dropWhile isSpace = s := by
  rcases s with _ | ⟨b, r⟩
  · rfl
  · rw [List.dropWhile_cons_of_neg (by rw [h.head b r rfl]; exact Bool.false_ne_true)]

theorem Trimmed.trim_eq {s : Bytes} (h : Trimmed s) : trim s = s := by
  rw [trim, h.dropWhile]
  rcases List.eq_nil_or_concat' s with rfl | ⟨r, b, rfl⟩
  · rfl
  · rw [List.reverse_concat, dropSpaces_cons, List.reverse_reverse, if_neg, List.reverse_cons,
      List.reverse_reverse]
    rw [Bool.and_eq_true, Bool.not_eq_true']
    rintro ⟨hb, hpend⟩
    rw [h.last r b rfl hb] at hpend
    cases hpend

theorem unescape_eq_self {s : Bytes} (h : backslash ∉ s) : unescape s = s := by
  fun_induction unescape s with
  | case1 => rfl
  | case2 => rfl
  | case3 b c r hb ih =>
    exact absurd (List.mem_cons_self ..) (eq_of_beq hb ▸ h)
  | case4 b c r hb ih =>
    rw [ih fun hm => h (List.mem_cons_of_mem b hm)]

end Escape
end Locksmith
