import Locksmith.ObjId
import Locksmith.Proofs.Text.Blank

namespace Locksmith
namespace Decimal

variable {s digits : Bytes} {n : Int}

/-- The number that digits stand for, behind others that stand for `acc`. -/
def valueFrom (acc : Nat) (digits : Bytes) : Nat :=
  digits.foldl (fun n b => n * 10 + (b.toNat - 48)) acc

def Digits (s : Bytes) : Prop := s ≠ [] ∧ ∀ b ∈ s, Bytes.isDigit b = true

/-- The text is a decimal number: digits, with a sign before them or without. -/
inductive Spells : Bytes → Int → Prop
  | plain {digits : Bytes} (h : Digits digits) : Spells digits (valueFrom 0 digits)
  | plus {digits : Bytes} (h : Digits digits) : Spells (43 :: digits) (valueFrom 0 digits)
  | minus {digits : Bytes} (h : Digits digits) : Spells (45 :: digits) (-valueFrom 0 digits)

def InRange (n : Int) : Prop := -2 ^ 63 ≤ n ∧ n < 2 ^ 63

instance (n : Int) : Decidable (InRange n) := inferInstanceAs (Decidable (_ ∧ _))

theorem inRange_toInt (x : Int64) : InRange x.toInt := ⟨x.le_toInt, x.toInt_lt⟩

theorem le_valueFrom (acc : Nat) (digits : Bytes) : acc ≤ valueFrom acc digits := by
  induction digits generalizing acc with
  | nil => exact Nat.le_refl acc
  | cons b digits ih =>
    have hnext : acc ≤ acc * 10 + (b.toNat - 48) := by omega
    exact Nat.le_trans hnext (ih _)

/-- Digits are read to the end unless the number grows too large, and then it stays so. -/
theorem readDigits_of_digits (acc : Nat) (hacc : acc < unsignedLimit)
    (h : ∀ b ∈ digits, Bytes.isDigit b = true) :
    readDigits acc digits =
      if valueFrom acc digits < unsignedLimit then .ok (valueFrom acc digits)
      else .error .outOfRange := by
  induction digits generalizing acc with
  | nil => exact (if_pos hacc).symm
  | cons b digits ih =>
    obtain ⟨hb, hdigits⟩ := List.forall_mem_cons.1 h
    rw [readDigits, hb, if_neg (by decide)]
    dsimp only
    split
    · rename_i hnext
      exact ih _ hnext hdigits
    · rename_i hnext
      have hgrown := le_valueFrom (acc * 10 + (b.toNat - 48)) digits
      exact (if_neg (by change ¬valueFrom (acc * 10 + (b.toNat - 48)) digits < _; omega)).symm

theorem readNat_of_digits (h : Digits digits) :
    readNat digits =
      if valueFrom 0 digits < unsignedLimit then .ok (valueFrom 0 digits)
      else .error .outOfRange := by
  rw [readNat, if_neg (by simpa using h.1)]
  exact readDigits_of_digits 0 (by decide) h.2

theorem digits_of_readDigits {acc k : Nat} (h : readDigits acc digits = .ok k) :
    (∀ b ∈ digits, Bytes.isDigit b = true) ∧ k = valueFrom acc digits := by
  induction digits generalizing acc with
  | nil =>
    cases h
    exact ⟨List.forall_mem_nil _, rfl⟩
  | cons b digits ih =>
    rw [readDigits] at h
    split at h
    · cases h
    · rename_i hdigit
      dsimp only at h
      split at h
      · obtain ⟨hdigits, hk⟩ := ih h
        exact ⟨List.forall_mem_cons.2 ⟨by simpa using hdigit, hdigits⟩, hk⟩
      · cases h

theorem digits_of_readNat {k : Nat} (h : readNat digits = .ok k) :
    Digits digits ∧ k = valueFrom 0 digits := by
  rw [readNat] at h
  split at h
  · cases h
  · rename_i hne
    obtain ⟨hdigits, hk⟩ := digits_of_readDigits h
    exact ⟨⟨by simpa using hne, hdigits⟩, hk⟩

theorem Digits.head_ne {b : UInt8} {r : Bytes} (h : Digits (b :: r)) : b ≠ 43 ∧ b ≠ 45 := by
  have hb := h.2 b List.mem_cons_self
  constructor
  · rintro rfl
    cases hb
  · rintro rfl
    cases hb

/-- Without a minus sign. -/
theorem readInt64_of_digits (h : Digits digits) :
    (do let k ← readNat digits; if k <
      signedLimit then .ok (Int64.ofNat k) else .error .outOfRange) =
      if valueFrom 0 digits < signedLimit then Except.ok (Int64.ofNat (valueFrom 0 digits))
      else .error .outOfRange := by
  rw [readNat_of_digits h]
  split
  · rfl
  · rename_i hlarge
    rw [unsignedLimit] at hlarge
    rw [signedLimit, if_neg (by omega)]
    rfl

/-- The spelling of a number is read if it has 64 bits, and otherwise refused for its size. -/
theorem Spells.readInt64 (h : Spells s n) :
    (∃ x : Int64, x.toInt = n ∧ Decimal.readInt64 s = .ok x) ∨
      ¬InRange n ∧ Decimal.readInt64 s = .error .outOfRange := by
  have hunsigned {digits : Bytes} {out : Except Error Int64}
      (hout : out = if valueFrom 0 digits <
        signedLimit then .ok (Int64.ofNat (valueFrom 0 digits))
        else .error .outOfRange) :
      (∃ x : Int64, x.toInt = valueFrom 0 digits ∧ out = .ok x) ∨
        ¬InRange (valueFrom 0 digits) ∧ out = .error .outOfRange := by
    split at hout
    · rename_i hsmall
      exact .inl ⟨_, Int64.toInt_ofNat_of_lt hsmall, hout⟩
    · rename_i hlarge
      refine .inr ⟨fun hrange => ?_, hout⟩
      have := hrange.2
      rw [signedLimit] at hlarge
      omega
  cases h with
  | plain h =>
    refine hunsigned ?_
    rw [← readInt64_of_digits h]
    obtain ⟨b, r, rfl⟩ := List.exists_cons_of_ne_nil h.1
    unfold Decimal.readInt64
    split
    · rename_i heq
      cases heq
      exact absurd rfl h.head_ne.2
    · rename_i heq
      cases heq
      exact absurd rfl h.head_ne.1
    · rfl
  | plus h => exact hunsigned (readInt64_of_digits h)
  | @minus digits h =>
    rw [Decimal.readInt64, readNat_of_digits h]
    by_cases hsmall : valueFrom 0 digits ≤ signedLimit
    · have hvalue : valueFrom 0 digits ≤ 2 ^ 63 := hsmall
      rw [if_pos (Nat.lt_of_le_of_lt hsmall (by decide))]
      exact .inl ⟨_, Int64.toInt_ofInt_of_le (by omega) (by omega), if_pos hsmall⟩
    · refine .inr ⟨fun hrange => ?_, ?_⟩
      · have := hrange.1
        rw [signedLimit] at hsmall
        omega
      · split
        · exact if_neg hsmall
        · rfl

/-- What is read is the number that the text spells. -/
theorem spells_of_readInt64 {x : Int64} (h : readInt64 s = .ok x) : Spells s x.toInt := by
  have hread {s : Bytes} {c : Nat → Prop} [DecidablePred c] {f : Nat → Int64}
      (h : (do let k ← readNat s; if c k then .ok (f k) else .error .outOfRange) =
        Except.ok x) :
      Digits s ∧ c (valueFrom 0 s) ∧ f (valueFrom 0 s) = x := by
    rcases hs : readNat s with e | k
    · rw [hs] at h
      cases h
    · obtain ⟨hdigits, rfl⟩ := digits_of_readNat hs
      rw [hs] at h
      change (if c (valueFrom 0 s) then Except.ok (f (valueFrom 0 s))
        else .error Error.outOfRange) = _ at h
      split at h
      · rename_i hc
        exact ⟨hdigits, hc, Except.ok.inj h⟩
      · cases h
  unfold readInt64 at h
  split at h
  · rename_i r
    obtain ⟨hdigits, hsmall, rfl⟩ := hread h
    have hvalue : valueFrom 0 r ≤ 2 ^ 63 := hsmall
    rw [Int64.toInt_ofInt_of_le (by omega) (by omega)]
    exact .minus hdigits
  · rename_i r
    obtain ⟨hdigits, hsmall, rfl⟩ := hread h
    rw [Int64.toInt_ofNat_of_lt hsmall]
    exact .plus hdigits
  · obtain ⟨hdigits, hsmall, rfl⟩ := hread h
    rw [Int64.toInt_ofNat_of_lt hsmall]
    exact .plain hdigits

theorem readInt64_eq_ok_iff {x : Int64} : readInt64 s = .ok x ↔ Spells s x.toInt := by
  refine ⟨spells_of_readInt64, fun h => ?_⟩
  rcases h.readInt64 with ⟨y, hy, hread⟩ | ⟨hrange, -⟩
  · rw [hread, Int64.toInt_inj.1 hy]
  · exact absurd (inRange_toInt x) hrange

theorem Spells.visible (h : Spells s n) : s ≠ [] ∧ ∀ b ∈ s, 33 ≤ b.toNat ∧ b.toNat < 128 := by
  have hdigit {b : UInt8} (hb : Bytes.isDigit b = true) : 33 ≤ b.toNat ∧ b.toNat < 128 := by
    apply isNumeral_visible
    rw [isNumeral, hb, Bool.or_true]
  cases h with
  | plain h => exact ⟨h.1, fun b hb => hdigit (h.2 b hb)⟩
  | plus h =>
    exact ⟨List.cons_ne_nil _ _,
      List.forall_mem_cons.2 ⟨by decide, fun b hb => hdigit (h.2 b hb)⟩⟩
  | minus h =>
    exact ⟨List.cons_ne_nil _ _,
      List.forall_mem_cons.2 ⟨by decide, fun b hb => hdigit (h.2 b hb)⟩⟩

theorem Spells.colon_notMem (h : Spells s n) : 58 ∉ s := by
  have hdigits {digits : Bytes} (h : Digits digits) : 58 ∉ digits := by
    intro hmem
    cases h.2 58 hmem
  have hsigned {b : UInt8} {digits : Bytes} (hb : b ≠ 58) (h : Digits digits) :
      58 ∉ b :: digits :=
    List.not_mem_cons_of_ne_of_not_mem hb.symm (hdigits h)
  cases h with
  | plain h => exact hdigits h
  | plus h => exact hsigned (by decide) h
  | minus h => exact hsigned (by decide) h

theorem spells_ofInt (x : Int64) : Spells (ofInt x.toInt) x.toInt :=
  readInt64_eq_ok_iff.1 (readInt64_ofInt x)

end Decimal

namespace Bytes

variable {b : UInt8} {s : Bytes}

theorem ne_of_notMem (h : b ∉ s) : ∀ a ∈ s, (!(a == b)) = true := by
  intro a ha
  rw [Bool.not_eq_true', beq_eq_false_iff_ne]
  rintro rfl
  exact h ha

theorem cutAt_append (h : b ∉ s) (t : Bytes) : (s ++ b :: t).cutAt (· == b) = some (s, t) := by
  rw [cutAt, List.dropWhile_append_of_pos (ne_of_notMem h),
    List.takeWhile_append_of_pos (ne_of_notMem h), List.dropWhile_cons_of_neg (by simp),
    List.takeWhile_cons_of_neg (by simp), List.append_nil]

theorem cutAt_of_notMem (h : b ∉ s) : s.cutAt (· == b) = none := by
  rw [cutAt, List.dropWhile_eq_nil_iff.2 (ne_of_notMem h)]

end Bytes

namespace Dbref

open Bytes (Blank Trimmed)
open Decimal (InRange)

variable {s before after : Bytes} {n : Int} {d : Dbref}

/-- The text is a reference: a mark and a number, with white space around. -/
def Spells (s : Bytes) (n : Int) : Prop :=
  ∃ before digits after, Blank before ∧ Blank after ∧ Decimal.Spells digits n ∧
    s = before ++ (35 :: digits ++ after)

theorem Spells.surround (h : Spells s n) (hbefore : Blank before) (hafter : Blank after) :
    Spells (before ++ (s ++ after)) n := by
  obtain ⟨front, digits, back, hfront, hback, hdigits, rfl⟩ := h
  refine ⟨before ++ front, digits, back ++ after, hbefore.append hfront, hback.append hafter,
    hdigits, ?_⟩
  simp only [List.append_assoc]

theorem trimmed_of_spells {digits : Bytes} (h : Decimal.Spells digits n) :
    Trimmed (35 :: digits) :=
  .of_visible (List.cons_ne_nil _ _) (List.forall_mem_cons.2 ⟨by decide, h.visible.2⟩)

/-- The spelling of a reference is read if its number has 64 bits, and otherwise refused for its
size. -/
theorem Spells.parse (h : Spells s n) :
    (∃ d : Dbref, d.num.toInt = n ∧ Dbref.parse s = .ok d) ∨
      ¬InRange n ∧ Dbref.parse s = .error (.badNumber s.trimBlanks .outOfRange) := by
  obtain ⟨before, digits, after, hbefore, hafter, hdigits, rfl⟩ := h
  have htrim := (trimmed_of_spells hdigits).trimBlanks hbefore hafter
  rcases hdigits.readInt64 with ⟨x, hx, hread⟩ | ⟨hrange, hread⟩
  · refine .inl ⟨⟨x⟩, hx, ?_⟩
    rw [Dbref.parse, htrim]
    simp only [hread]
  · refine .inr ⟨hrange, ?_⟩
    rw [Dbref.parse, htrim]
    simp only [hread]

theorem toInt_num_inj {d d' : Dbref} (h : d.num.toInt = d'.num.toInt) : d = d' := by
  cases d
  cases d'
  exact congrArg Dbref.mk (Int64.toInt_inj.1 h)

/-- Just the spellings of a number of 64 bits are read as a reference to it. -/
theorem parse_eq_ok_iff : parse s = .ok d ↔ Spells s d.num.toInt := by
  constructor
  · intro h
    obtain ⟨digits, htext, hread⟩ := parse_eq_ok h
    obtain ⟨before, after, hbefore, hafter, hs⟩ := s.exists_trimBlanks
    rw [htext] at hs
    exact ⟨before, digits, after, hbefore, hafter, Decimal.readInt64_eq_ok_iff.1 hread, hs⟩
  · intro h
    rcases h.parse with ⟨d', hd', hparse⟩ | ⟨hrange, -⟩
    · rw [hparse, toInt_num_inj hd']
    · exact absurd (Decimal.inRange_toInt _) hrange

theorem spells_render (d : Dbref) : Spells d.render d.num.toInt :=
  parse_eq_ok_iff.1 d.parse_render

end Dbref

namespace ObjId

open Bytes (Blank Trimmed)
open Decimal (InRange)

variable {s before after : Bytes} {n : Int} {time? : Option Int} {o : ObjId}

/-- The text is a reference, with a time behind a colon if it is qualified. White space may
stand around the reference and behind the time. -/
inductive Spells : Bytes → Int → Option Int → Prop
  | bare {s : Bytes} {n : Int} (h : Dbref.Spells s n) : Spells s n none
  | qualified {ref time after : Bytes} {n t : Int} (hnumber : Dbref.Spells ref n)
      (htime : Decimal.Spells time t)
      (hafter : Blank after) : Spells (ref ++ 58 :: (time ++ after)) n (some t)

theorem Spells.surround (h : Spells s n time?) (hbefore : Blank before) (hafter : Blank after) :
    Spells (before ++ (s ++ after)) n time? := by
  cases h with
  | bare h => exact .bare (h.surround hbefore hafter)
  | @qualified ref time back n t hnumber htime hback =>
    have hfront := hnumber.surround hbefore .nil
    have hsame : before ++ (ref ++ 58 :: (time ++ back) ++ after) =
        (before ++ (ref ++ [])) ++ 58 :: (time ++ (back ++ after)) := by
      simp only [List.append_assoc, List.append_nil, List.cons_append]
    rw [hsame]
    exact .qualified hfront htime (hback.append hafter)

theorem parse_bare (h : 58 ∉ s.trimBlanks) :
    parse s = ((Dbref.parse s.trimBlanks).mapError .badRef).map (⟨·, -1⟩) := by
  rw [parse, Bytes.cutAt_of_notMem h]
  dsimp only
  cases Dbref.parse s.trimBlanks with
  | error e => rfl
  | ok d => rfl

theorem parse_qualified {ref time : Bytes} (htext : s.trimBlanks = ref ++ 58 :: time)
    (hcolon : 58 ∉ ref) :
    parse s = (Dbref.parse ref).mapError .badRef >>= fun d =>
      ((Decimal.readInt64 time).mapError (.badTime s.trimBlanks time)).map (⟨d, ·⟩) := by
  rw [parse, htext, Bytes.cutAt_append hcolon]
  dsimp only
  cases Dbref.parse ref with
  | error e => rfl
  | ok d =>
    cases Decimal.readInt64 time with
    | error e => rfl
    | ok t => rfl

theorem colon_notMem (h : Dbref.Spells s n) : 58 ∉ s := by
  have hblank {s : Bytes} (h : Blank s) : 58 ∉ s := by
    intro hmem
    have hvisible : ¬((58 : UInt8).toNat < 33 ∨ 128 ≤ (58 : UInt8).toNat) := by decide
    exact hvisible (h.not_visible 58 hmem)
  obtain ⟨before, digits, after, hbefore, hafter, hdigits, rfl⟩ := h
  have hmark : (58 : UInt8) ∉ 35 :: digits :=
    List.not_mem_cons_of_ne_of_not_mem (by decide) hdigits.colon_notMem
  simp only [List.mem_append, not_or]
  exact ⟨hblank hbefore, hmark, hblank hafter⟩

theorem trimBlanks_bare (h : Dbref.Spells s n) :
    58 ∉ s.trimBlanks ∧ Dbref.Spells s.trimBlanks n := by
  obtain ⟨before, digits, after, hbefore, hafter, hdigits, rfl⟩ := h
  rw [(Dbref.trimmed_of_spells hdigits).trimBlanks hbefore hafter]
  have hspells : Dbref.Spells (35 :: digits) n :=
    ⟨[], digits, [], .nil, .nil, hdigits, (List.append_nil _).symm⟩
  exact ⟨colon_notMem hspells, hspells⟩

theorem trimBlanks_qualified {ref time : Bytes} {t : Int} (h : Dbref.Spells ref n)
    (htime : Decimal.Spells time t) (hafter : Blank after) :
    ∃ ref', (ref ++ 58 :: (time ++ after)).trimBlanks = ref' ++ 58 :: time ∧
      Dbref.Spells ref' n := by
  obtain ⟨before, digits, mid, hbefore, hmid, hdigits, rfl⟩ := h
  refine ⟨35 :: digits ++ mid, ?_, [], digits, mid, .nil, hmid, hdigits, rfl⟩
  have htimed : Trimmed (58 :: time) :=
    .of_visible (List.cons_ne_nil _ _) (List.forall_mem_cons.2 ⟨by decide, htime.visible.2⟩)
  have htrim :=
    ((Dbref.trimmed_of_spells hdigits).append hmid.whole htimed).trimBlanks hbefore hafter
  simpa only [List.append_assoc, List.cons_append] using htrim

/-- The spelling of a reference is read if its numbers have 64 bits, and otherwise refused. -/
theorem Spells.parse (h : Spells s n time?) :
    (∃ o : ObjId, o.ref.num.toInt = n ∧ o.created.toInt = time?.getD (-1) ∧
      ObjId.parse s = .ok o) ∨
      (¬InRange n ∨ ∃ t, time? = some t ∧ ¬InRange t) ∧ ∃ e, ObjId.parse s = .error e := by
  cases h with
  | bare h =>
    obtain ⟨hcolon, hspells⟩ := trimBlanks_bare h
    rw [parse_bare hcolon]
    rcases hspells.parse with ⟨d, hd, hparse⟩ | ⟨hrange, hparse⟩
    · rw [hparse]
      exact .inl ⟨_, hd, rfl, rfl⟩
    · rw [hparse]
      exact .inr ⟨.inl hrange, _, rfl⟩
  | @qualified ref time after n t h htime hafter =>
    obtain ⟨ref', htext, hspells⟩ := trimBlanks_qualified h htime hafter
    rw [parse_qualified htext (colon_notMem hspells)]
    rcases hspells.parse with ⟨d, hd, hparse⟩ | ⟨hrange, hparse⟩
    · rw [hparse]
      rcases htime.readInt64 with ⟨x, hx, hread⟩ | ⟨hrange, hread⟩
      · rw [hread]
        exact .inl ⟨_, hd, hx, rfl⟩
      · rw [hread]
        exact .inr ⟨.inr ⟨t, rfl, hrange⟩, _, rfl⟩
    · rw [hparse]
      exact .inr ⟨.inl hrange, _, rfl⟩

/-- Just the spellings of numbers of 64 bits are read; without a time, any time is meant, which
is kept as `-1`. -/
theorem parse_eq_ok_iff :
    parse s = .ok o ↔ ∃ time?, Spells s o.ref.num.toInt time? ∧
      o.created.toInt = time?.getD (-1) := by
  constructor
  · intro h
    obtain ⟨before, after, hbefore, hafter, hs⟩ := s.exists_trimBlanks
    by_cases hcolon : 58 ∈ s.trimBlanks
    · obtain ⟨ref, time, htext, hclear⟩ := List.eq_append_cons_of_mem hcolon
      rw [parse_qualified htext hclear] at h
      rcases hparse : Dbref.parse ref with e | d
      · rw [hparse] at h
        cases h
      rcases hread : Decimal.readInt64 time with e | t
      · rw [hparse, hread] at h
        cases h
      rw [hparse, hread] at h
      cases h
      have hspells : Spells (ref ++ 58 :: (time ++ [])) d.num.toInt (some t.toInt) :=
        .qualified (Dbref.parse_eq_ok_iff.1 hparse) (Decimal.readInt64_eq_ok_iff.1 hread) .nil
      rw [List.append_nil, ← htext] at hspells
      rw [hs]
      exact ⟨some t.toInt, hspells.surround hbefore hafter, rfl⟩
    · rw [parse_bare hcolon] at h
      rcases hparse : Dbref.parse s.trimBlanks with e | d
      · rw [hparse] at h
        cases h
      · rw [hparse] at h
        cases h
        rw [hs]
        exact ⟨none, .bare ((Dbref.parse_eq_ok_iff.1 hparse).surround hbefore hafter), rfl⟩
  · rintro ⟨time?, hspells, hcreated⟩
    have htime {t : Int} (ht : time? = some t) : InRange t := by
      have hrange := Decimal.inRange_toInt o.created
      rwa [hcreated, ht] at hrange
    rcases hspells.parse with ⟨o', href, htime', hparse⟩ | ⟨hrange | ⟨t, ht, hrange⟩, -⟩
    · have hsame : o' = o := by
        obtain ⟨ref, created⟩ := o
        obtain ⟨ref', created'⟩ := o'
        obtain rfl : ref' = ref := Dbref.toInt_num_inj href
        obtain rfl : created' = created := Int64.toInt_inj.1 (htime'.trans hcreated.symm)
        rfl
      rw [hparse, hsame]
    · exact absurd (Decimal.inRange_toInt _) hrange
    · exact absurd (htime ht) hrange

theorem render_eq (o : ObjId) :
    o.render = o.ref.render ++ 58 :: (Decimal.ofInt o.created.toInt ++ []) := by
  rw [List.append_nil]
  exact List.append_assoc _ _ _

theorem spells_render (o : ObjId) : Spells o.render o.ref.num.toInt (some o.created.toInt) := by
  rw [render_eq]
  exact .qualified (Dbref.spells_render o.ref) (Decimal.spells_ofInt o.created) .nil

theorem parse_render (o : ObjId) : parse o.render = .ok o :=
  parse_eq_ok_iff.2 ⟨some o.created.toInt, o.spells_render, rfl⟩

/-- What is written is read back, whatever white space stands around it. A text that is read
spells the numbers that are read, and one that spells a number of more than 64 bits is refused.
-/
theorem references_read_back (d : Dbref) (o : ObjId) (s : Bytes) :
    (∀ before after : Bytes, Blank before → Blank after →
      Dbref.parse (before ++ (d.render ++ after)) = .ok d ∧
      parse (before ++ (o.render ++ after)) = .ok o) ∧
    (Dbref.parse s = .ok d ↔ Dbref.Spells s d.num.toInt) ∧
    (parse s = .ok o ↔
      ∃ time?, Spells s o.ref.num.toInt time? ∧ o.created.toInt = time?.getD (-1)) ∧
    (∀ n : Int, Dbref.Spells s n → ¬InRange n → ∃ e, Dbref.parse s = .error e) ∧
    ∀ (n : Int) (time? : Option Int), Spells s n time? →
      (¬InRange n ∨ ∃ t, time? = some t ∧ ¬InRange t) →
      ∃ e, parse s = .error e := by
  refine ⟨fun before after hbefore hafter => ⟨?_, ?_⟩, Dbref.parse_eq_ok_iff,
    parse_eq_ok_iff, ?_, ?_⟩
  · exact Dbref.parse_eq_ok_iff.2 (d.spells_render.surround hbefore hafter)
  · exact parse_eq_ok_iff.2 ⟨some o.created.toInt, o.spells_render.surround hbefore hafter, rfl⟩
  · intro n hspells hlarge
    rcases hspells.parse with ⟨d', rfl, -⟩ | ⟨-, hparse⟩
    · exact absurd (Decimal.inRange_toInt _) hlarge
    · exact ⟨_, hparse⟩
  · intro n time? hspells hlarge
    rcases hspells.parse with ⟨o', rfl, htime, -⟩ | ⟨-, hparse⟩
    · rcases hlarge with hlarge | ⟨t, rfl, hlarge⟩
      · exact absurd (Decimal.inRange_toInt _) hlarge
      · have hrange := Decimal.inRange_toInt o'.created
        rw [htime] at hrange
        exact absurd hrange hlarge
    · exact hparse

/-- At the ends of the range: the least number is read back out of wide blanks, and one more
than the largest is refused as a number and as a time. -/
theorem references_read_back_limits :
    (Blank "\u3000\t" ∧ Blank "\n\u2003") ∧
    (Dbref.parse ("\u3000\t" ++ (Dbref.render ⟨Int64.minValue⟩ ++ "\n\u2003")) =
      .ok ⟨Int64.minValue⟩ ∧
      parse ("\u3000\t" ++ (render ⟨⟨Int64.minValue⟩, Int64.maxValue⟩ ++ "\n\u2003")) =
        .ok ⟨⟨Int64.minValue⟩, Int64.maxValue⟩) ∧
    (Dbref.Spells "#9223372036854775808" (2 ^ 63) ∧ ∃ e,
      Dbref.parse "#9223372036854775808" = .error e) ∧
    Spells "#0:-9223372036854775809" 0 (some (-2 ^ 63 - 1)) ∧ ∃ e,
      parse "#0:-9223372036854775809" = .error e := by
  have hwide : Blank "\u3000\t" := ⟨['\u3000', '\t'], List.all_eq_true.1 rfl, rfl⟩
  have hline : Blank "\n\u2003" := ⟨['\n', '\u2003'], List.all_eq_true.1 rfl, rfl⟩
  have hnumber : Dbref.Spells "#9223372036854775808" (2 ^ 63) :=
    ⟨[], "9223372036854775808", [], .nil, .nil, .plain ⟨by decide, by decide +kernel⟩,
      by decide +kernel⟩
  have htime : Spells "#0:-9223372036854775809" 0 (some (-2 ^ 63 - 1)) :=
    .qualified ⟨[], "0", [], .nil, .nil, .plain ⟨by decide, by decide +kernel⟩, rfl⟩
      (.minus ⟨by decide, by decide +kernel⟩ : Decimal.Spells "-9223372036854775809" _) .nil
  refine ⟨⟨hwide, hline⟩, ⟨?_, ?_⟩, ⟨hnumber, ?_⟩, htime, ?_⟩
  · exact ((references_read_back ⟨Int64.minValue⟩ ⟨0, 0⟩ []).1 _ _ hwide hline).1
  · exact ((references_read_back 0 ⟨⟨Int64.minValue⟩, Int64.maxValue⟩ []).1 _ _ hwide hline).2
  · exact (references_read_back 0 ⟨0, 0⟩ _).2.2.2.1 _ hnumber (by decide)
  · exact (references_read_back 0 ⟨0, 0⟩ _).2.2.2.2 _ _ htime (.inr ⟨_, rfl, by decide⟩)

end ObjId
end Locksmith
