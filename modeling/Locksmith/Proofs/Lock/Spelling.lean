import Locksmith.Machine.Assembly
import Locksmith.Proofs.Lock.Escape
import Locksmith.Proofs.Text.Case
import Locksmith.Proofs.Text.Decimal

namespace Locksmith

namespace Bytes.Recased

variable {s t : Bytes}

theorem eq_nil_iff (h : Recased s t) : s = [] ↔ t = [] := by
  cases h with
  | nil => exact Iff.rfl
  | mark => simp
  | other hx hy => simp [hx, hy]

theorem mem_iff (h : Recased s t) {b : UInt8} (hb : isMark b = true) : b ∈ s ↔ b ∈ t := by
  have hnot {xs : Bytes} (hxs : ∀ c ∈ xs, isMark c = false) : b ∉ xs := by
    intro hm
    rw [hxs b hm] at hb
    cases hb
  induction h with
  | nil => exact Iff.rfl
  | mark _ _ ih => simp only [List.mem_cons, ih]
  | other _ _ hxs hys _ ih =>
    simp only [List.mem_append, ih, hnot hxs, hnot hys, false_or]

theorem head (h : Recased s t) {b : UInt8} {r : Bytes} (ht : t = b :: r)
    (hb : isMark b = true) : ∃ r', s = b :: r' := by
  cases h with
  | nil => cases ht
  | @mark _ s' _ _ _ =>
    cases ht
    exact ⟨s', rfl⟩
  | @other _ ys _ _ _ hy _ hys _ =>
    rcases ys with _ | ⟨y, ys⟩
    · exact absurd rfl hy
    · cases ht
      rw [hys b (List.mem_cons_self ..)] at hb
      cases hb

theorem concat (h : Recased s t) {b : UInt8} {r : Bytes} (ht : t = r ++ [b])
    (hb : isMark b = true) : ∃ r', s = r' ++ [b] ∧ Recased r' r := by
  induction h generalizing r with
  | nil => simp at ht
  | @mark c s t hc h ih =>
    rcases List.eq_nil_or_concat' t with rfl | ⟨t', d, rfl⟩
    · obtain ⟨rfl, hcb⟩ := List.append_inj' (show [] ++ [c] = r ++ [b] from ht) rfl
      cases hcb
      obtain rfl := h.eq_nil_iff.2 rfl
      exact ⟨[], rfl, .nil⟩
    · obtain ⟨rfl, hd⟩ := List.append_inj' (show (c :: t') ++ [d] = r ++ [b] from ht) rfl
      cases hd
      obtain ⟨r', rfl, h'⟩ := ih rfl
      exact ⟨c :: r', rfl, .mark hc h'⟩
  | @other xs ys s t hx hy hxs hys h ih =>
    rcases List.eq_nil_or_concat' t with rfl | ⟨t', d, rfl⟩
    · have hm : b ∈ ys := by
        rw [List.append_nil] at ht
        simp [ht]
      rw [hys b hm] at hb
      cases hb
    · rw [← List.append_assoc] at ht
      obtain ⟨rfl, hd⟩ := List.append_inj' ht rfl
      cases hd
      obtain ⟨r', rfl, h'⟩ := ih rfl
      exact ⟨xs ++ r', (List.append_assoc ..).symm, .other hx hy hxs hys h'⟩

open Escape in
theorem pending_other {xs : Bytes} (hx : xs ≠ []) (hxs : ∀ b ∈ xs, isMark b = false)
    (e : Bool) : pending e xs = false := by
  have hne : ∀ b ∈ xs, (b == backslash) = false := by
    intro b hb
    refine beq_false_of_ne ?_
    rintro rfl
    have := hxs _ hb
    cases this
  rcases List.eq_nil_or_concat' xs with rfl | ⟨r, b, rfl⟩
  · exact absurd rfl hx
  · rw [pending_append, pending_cons, hne b (by simp), Bool.and_false]
    rfl

open Escape in
theorem pending_eq (h : Recased s t) (e : Bool) : pending e s = pending e t := by
  induction h generalizing e with
  | nil => rfl
  | mark _ _ ih => exact ih _
  | other hx hy hxs hys _ ih =>
    rw [pending_append, pending_append, pending_other hx hxs, pending_other hy hys, ih]

open Escape in
theorem clear (h : Recased s t) {p : UInt8 → Bool} (hp : ∀ b, isMark b = false → p b = false)
    {e : Bool} (hs : Clear p e s) : Clear p e t := by
  induction h generalizing e with
  | nil => exact hs
  | mark _ _ ih =>
    cases e with
    | true => exact ih hs
    | false => exact ⟨hs.1, ih hs.2⟩
  | other hx hy hxs hys _ ih =>
    rw [clear_append, pending_other hx hxs] at hs
    rw [clear_append, pending_other hy hys]
    exact ⟨clear_of_forall (fun b hb => hp b (hys b hb)) e, ih hs.2⟩

theorem isMark_of_isSpace {b : UInt8} (h : Escape.isSpace b = true) : isMark b = true := by
  rcases hm : isMark b with _ | _
  · revert b
    decide +kernel
  · rfl

open Escape in
theorem trimmed (h : Recased s t) (hs : Trimmed s) : Trimmed t := by
  constructor
  · intro b r ht
    rcases hb : isSpace b with _ | _
    · rfl
    · obtain ⟨r', hr⟩ := h.head ht (isMark_of_isSpace hb)
      rw [← hb, hs.head b r' hr]
  · intro r b ht hb
    obtain ⟨r', hr, h'⟩ := h.concat ht (isMark_of_isSpace hb)
    rw [← h'.pending_eq, hs.last r' b hr hb]

end Bytes.Recased

namespace Parser

/-- Whether a byte tells a text from the constants: a minus sign, a digit or a divider. -/
def isTelling (b : UInt8) : Bool := b == 45 || Bytes.isDigit b || Escape.dividesKey b

theorem isTelling_folds :
    ∀ b : UInt8, isTelling b = true → b.toNat < 128 ∧
      Case.foldChar (Char.ofNat b.toNat) ∉
        (Utf8.decode ("#true" : Bytes) ++ Utf8.decode ("#false" : Bytes)).map
          (fun x => Case.foldChar x.toChar) := by
  decide +kernel

theorem isConstant_eq_false {s : Bytes} {b : UInt8} (h : b ∈ s) (hb : isTelling b = true) :
    isConstant s = false := by
  obtain ⟨hascii, hfold⟩ := isTelling_folds b hb
  rw [List.map_append, List.mem_append, not_or] at hfold
  have hmem : Case.foldChar (Char.ofNat b.toNat) ∈
      (Utf8.decode s).map fun x => Case.foldChar x.toChar :=
    List.mem_map.2 ⟨_, Utf8.mem_decode_of_mem h hascii, rfl⟩
  rw [isConstant, Bool.or_eq_false_iff]
  constructor
  · refine beq_false_of_ne fun he => hfold.1 ?_
    rwa [he] at hmem
  · refine beq_false_of_ne fun he => hfold.2 ?_
    rwa [he] at hmem

def isOperator (b : UInt8) : Bool :=
  b == 33 || b == 64 || b == 61 || b == 43 || b == 36 || b == 40

end Parser

namespace Key

open Escape

def erase : Key → Key
  | .and _ left right => .and 0 left.erase right.erase
  | .or _ left right => .or 0 left.erase right.erase
  | .not _ operand => .not 0 operand.erase
  | .const _ d => .const 0 d
  | .is _ d => .is 0 d
  | .carry _ d => .carry 0 d
  | .owner _ d => .owner 0 d
  | .indirect _ d lock => .indirect 0 d lock
  | .attr _ name pattern => .attr 0 name pattern
  | .eval _ name pattern => .eval 0 name pattern
  | .flagClass _ name pattern => .flagClass 0 name pattern
  | .bool _ value => .bool 0 value

/-- Puts a key behind the last of those that `&` joins. -/
def joinAnd : Key → Key → Key
  | .and pos left right, key => .and pos left (joinAnd right key)
  | left, key => .and 0 left key

/-- Puts a key behind the last of those that `|` joins. -/
def joinOr : Key → Key → Key
  | .or pos left right, key => .or pos left (joinOr right key)
  | left, key => .or 0 left key

/-- The key with all that `&` joins, and all that `|` joins, associated to the right. -/
def reassoc : Key → Key
  | .and _ left right => joinAnd left.reassoc right.reassoc
  | .or _ left right => joinOr left.reassoc right.reassoc
  | .not pos operand => .not pos operand.reassoc
  | key => key

def enclosed (mark : Bool) (s : Bytes) : Bytes := if mark then 40 :: s ++ [41] else s

def spell : Key → Bytes
  | .and _ left right => enclosed left.isOr left.spell ++ 38 :: enclosed right.isOr right.spell
  | .or _ left right => left.spell ++ 124 :: right.spell
  | .not _ operand => 33 :: enclosed (operand.isOr || operand.isAnd) operand.spell
  | .const _ d => d.render
  | .is _ d => 61 :: d.render
  | .carry _ d => 43 :: d.render
  | .owner _ d => 36 :: d.render
  | .indirect _ d lock => 64 :: d.render ++ 47 :: lock
  | .attr _ name pattern => name ++ 58 :: pattern
  | .eval _ name pattern => name ++ 47 :: pattern
  | .flagClass _ name pattern => name ++ 94 :: pattern
  | .bool _ value => if value then "#TRUE" else "#FALSE"

def spellAs (shown : Dbref → Bytes) : Key → Bytes
  | .and _ left right =>
    enclosed left.isOr (left.spellAs shown) ++ 38 :: enclosed right.isOr (right.spellAs shown)
  | .or _ left right => left.spellAs shown ++ 124 :: right.spellAs shown
  | .not _ operand => 33 :: enclosed (operand.isOr || operand.isAnd) (operand.spellAs shown)
  | .const _ d => shown d
  | .is _ d => 61 :: shown d
  | .carry _ d => 43 :: shown d
  | .owner _ d => 36 :: shown d
  | .indirect _ d lock => 64 :: shown d ++ 47 :: lock
  | .attr _ name pattern => name ++ 58 :: pattern
  | .eval _ name pattern => name ++ 47 :: pattern
  | .flagClass _ name pattern => name ++ 94 :: pattern
  | .bool _ value => if value then "#TRUE" else "#FALSE"

theorem spellAs_render (key : Key) : key.spellAs Dbref.render = key.spell := by
  induction key with
  | and pos left right ihl ihr => rw [spellAs, spell, ihl, ihr]
  | or pos left right ihl ihr => rw [spellAs, spell, ihl, ihr]
  | not pos operand ih => rw [spellAs, spell, ih]
  | _ => rfl

def lockNames : Key → List Bytes
  | .and _ left right | .or _ left right => left.lockNames ++ right.lockNames
  | .not _ operand => operand.lockNames
  | .indirect _ _ lock => [lock]
  | _ => []

structure IsLockName (s : Bytes) : Prop where
  ne_nil : s ≠ []
  plain : ∀ b ∈ s, b ≠ 0 ∧ b ≠ backslash ∧ endsKey b = false
  first : s.head?.any isSpace = false
  last : s.getLast?.any isSpace = false

theorem IsLockName.trimmed {s : Bytes} (h : IsLockName s) : Trimmed s := by
  constructor
  · rintro b r rfl
    exact h.first
  · rintro r b rfl hb
    have := h.last
    rw [List.getLast?_concat] at this
    exact absurd (hb.symm.trans this) (by decide)

structure IsName (s : Bytes) : Prop where
  ne_nil : s ≠ []
  upper : s.toUpper = s
  clear : Clear (fun b => endsKey b || dividesKey b) false s
  closed : pending false s = false
  trimmed : Trimmed s
  plain : 0 ∉ s ∧ 32 ∉ s ∧ 9 ∉ s
  head : ∀ b r, s = b :: r → Parser.isOperator b = false

/-- A pattern that is read back as it is written. At the very end of a text it may end in a
backslash that escapes nothing. -/
structure IsPattern (last : Bool) (s : Bytes) : Prop where
  clear : Clear endsKey false s
  closed : last = false → pending false s = false
  trimmed : Trimmed s
  plain : 0 ∉ s

/-- A key that is read back as it is spelled, where `last` says that nothing follows it. -/
def Sound (known : Bytes → Bool) (last : Bool) : Key → Prop
  | .and _ left right => left.Sound known false ∧ right.Sound known (last && !right.isOr)
  | .or _ left right => left.Sound known false ∧ right.Sound known last
  | .not _ operand => operand.Sound known (last && !(operand.isOr || operand.isAnd))
  | .const _ d | .is _ d | .carry _ d | .owner _ d => d.fitsOperand = true
  | .indirect _ d lock => d.fitsOperand = true ∧ IsLockName lock
  | .attr _ name pattern | .eval _ name pattern => IsName name ∧ IsPattern last pattern
  | .flagClass _ name pattern => known name = true ∧ IsName name ∧ IsPattern last pattern
  | .bool .. => True

theorem IsPattern.mono {last : Bool} {s : Bytes} (h : IsPattern false s) : IsPattern last s :=
  ⟨h.clear, fun _ => h.closed rfl, h.trimmed, h.plain⟩

theorem Sound.mono {known : Bytes → Bool} {key : Key} (h : key.Sound known false)
    (last : Bool) : key.Sound known last := by
  induction key generalizing last with
  | and pos left right ihl ihr => exact ⟨h.1, ihr h.2 _⟩
  | or pos left right ihl ihr => exact ⟨h.1, ihr h.2 _⟩
  | not pos operand ih => exact ih h _
  | attr pos name pattern => exact ⟨h.1, h.2.mono⟩
  | eval pos name pattern => exact ⟨h.1, h.2.mono⟩
  | flagClass pos name pattern => exact ⟨h.1, h.2.1, h.2.2.mono⟩
  | _ => exact h

theorem Sound.objects {known : Bytes → Bool} {last : Bool} {key : Key}
    (h : key.Sound known last) :
    ∀ d ∈ Assembly.objects key, d.fitsOperand = true := by
  induction key generalizing last with
  | and pos left right ihl ihr =>
    exact fun d hd => (List.mem_append.1 hd).elim (ihl h.1 d) (ihr h.2 d)
  | or pos left right ihl ihr =>
    exact fun d hd => (List.mem_append.1 hd).elim (ihl h.1 d) (ihr h.2 d)
  | not pos operand ih => exact ih h
  | indirect pos d lock =>
    intro d' hd
    cases List.mem_singleton.1 hd
    exact h.1
  | attr | eval | flagClass | bool => exact List.forall_mem_nil _
  | _ =>
    intro d hd
    cases List.mem_singleton.1 hd
    exact h

end Key
end Locksmith
