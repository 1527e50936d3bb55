import Locksmith.Proofs.Lock.Grammar

namespace Locksmith
namespace Grammar

open Escape Locksmith.Parser

variable {ctx : ParseContext} {level : Level} {last : Bool} {pos : Nat}
  {s t text back space rest : Bytes} {key left right : Key}

def Level.read (ctx : ParseContext) : Level → Cursor → Except Failure (Key × Cursor)
  | .or => readOr ctx
  | .and => readAnd ctx
  | .operand => readNot ctx

/-- Where a level ends: before none of the operators that it goes on with. -/
def Level.Stops : Level → Bytes → Prop
  | .or, rest => (∀ r, rest ≠ 38 :: r) ∧ ∀ r, rest ≠ 124 :: r
  | .and, rest => ∀ r, rest ≠ 38 :: r
  | .operand, _ => True

theorem Level.stops_nil (level : Level) : level.Stops [] := by
  cases level with
  | or => exact ⟨fun r => (List.cons_ne_nil 38 r).symm, fun r => (List.cons_ne_nil 124 r).symm⟩
  | and => exact fun r => (List.cons_ne_nil 38 r).symm
  | operand => trivial

/-- The reader takes `s` for a key and leaves `rest`, but for white space. -/
def Consumes (read : Cursor → Except Failure (Key × Cursor)) (pos : Nat) (s : Bytes) (key : Key)
    (rest : Bytes) : Prop :=
  ∀ asked, ∃ next, read ⟨pos, s ++ rest, asked⟩ = .ok (key, next) ∧ next.skipSpace.rest = rest ∧
    next.skipSpace.pos = pos + s.length

theorem skipSpace_append (hspace : Blank space) (ht : ∀ b r, t = b :: r → isSpace b = false)
    (pos : Nat) (asked : List Bytes) :
    Cursor.skipSpace ⟨pos, space ++ t, asked⟩ = ⟨pos + space.length, t, asked⟩ := by
  have hdrop : t.dropWhile isSpace = t := by
    rcases t with _ | ⟨b, r⟩
    · rfl
    · rw [List.dropWhile_cons_of_neg]
      rw [ht b r rfl]
      exact Bool.false_ne_true
  have htake : t.takeWhile isSpace = [] := by
    rcases t with _ | ⟨b, r⟩
    · rfl
    · rw [List.takeWhile_cons_of_neg]
      rw [ht b r rfl]
      exact Bool.false_ne_true
  rw [Cursor.skipSpace, hspace.dropWhile_append, hspace.takeWhile_append, hdrop, htake,
    List.append_nil]

theorem Atom.head (h : Atom text) (t : Bytes) :
    ∀ b r, text ++ t = b :: r → isSpace b = false := by
  obtain ⟨a, text, rfl⟩ := List.exists_cons_of_ne_nil h.ne_nil
  intro b r heq
  cases heq
  exact h.trimmed.head a text rfl

theorem Leaf.head (h : Leaf ctx pos text key) (t : Bytes) :
    ∀ b r, text ++ t = b :: r → isSpace b = false := by
  cases h with
  | key atom => exact atom.head t
  | indirect =>
    intro b r heq
    cases heq
    rfl
  | object takes =>
    intro b r heq
    cases heq
    cases takes with
    | is => rfl
    | carry => rfl
    | owner => rfl

/-- What a scanned text ends before. -/
def Closes (text back rest : Bytes) : Prop :=
  (pending false text = true → back = [] ∧ rest = []) ∧
  (rest = [] ∨ ∃ b r, rest = b :: r ∧ endsKey b = true)

theorem Closes.of_follows (hrest : Follows last rest)
    (hclosed : pending false text = true → back = [] ∧ last = true) :
    Closes text back rest := by
  constructor
  · intro hp
    obtain ⟨hback, rfl⟩ := hclosed hp
    rcases hrest with hnil | ⟨hlast, -⟩
    · exact ⟨hback, hnil⟩
    · cases hlast
  · rcases hrest with hnil | ⟨-, hb⟩
    · exact .inl hnil
    · exact .inr hb

/-- An operator and white space before an object change nothing of what is pending behind it. -/
theorem Closes.behind {operator : UInt8} (h : Closes (operator :: (space ++ text)) back rest)
    (hoperator : (operator == backslash) = false) (hspace : Blank space) :
    Closes text back rest := by
  rwa [Closes, pending_cons, hoperator, Bool.and_false, pending_append, hspace.pending] at h

theorem Takes.ne_backslash {operator : UInt8} {make : Nat → Dbref → Key}
    (h : Takes operator make) : (operator == backslash) = false := by
  cases h with
  | is => rfl
  | carry => rfl
  | owner => rfl

theorem Closes.skipSpace (h : Closes text back rest) (pos : Nat) (asked : List Bytes) :
    Cursor.skipSpace ⟨pos, rest, asked⟩ = ⟨pos, rest, asked⟩ := by
  apply skipSpace_of_head
  rintro b r (heq : rest = b :: r)
  rcases h.2 with hnil | ⟨b', r', hrest, hb⟩
  · rw [hnil] at heq
    cases heq
  · rw [hrest] at heq
    cases heq
    exact isSpace_of_endsKey hb

theorem scanKey_atom (hatom : Atom text) (hback : Blank back) (hclosed : Closes text back rest)
    (pos : Nat) (asked : List Bytes) :
    Cursor.scanKey ⟨pos, text ++ (back ++ rest), asked⟩ =
      (text, ⟨pos + (text ++ back).length, rest, asked⟩) := by
  have hblank : pending false text = true → back = [] := fun hp => (hclosed.1 hp).1
  have hclear : Clear endsKey false (text ++ back) := by
    rw [clear_append]
    refine ⟨hatom.clear, ?_⟩
    rcases hp : pending false text with _ | _
    · exact hback.clear
    · rw [hblank hp]
      trivial
  have hends :
      rest = [] ∨ pending false (text ++ back) = false ∧ ∃ b r, rest = b :: r ∧
        endsKey b = true := by
    rcases hclosed.2 with hnil | ⟨b, r, hrest, hb⟩
    · exact .inl hnil
    · refine .inr ⟨?_, b, r, hrest, hb⟩
      rcases hp : pending false text with _ | _
      · rw [pending_append, hp, hback.pending]
      · have hnil := (hclosed.1 hp).2
        rw [hrest] at hnil
        cases hnil
  have htrim : trim (text ++ back) = text := trim_append blank_nil hback hatom.trimmed hblank
  rw [← List.append_assoc, Cursor.scanKey, span_append_eq endsKey_backslash hclear hends]
  dsimp only
  rw [htrim]

theorem operandOutcome_leaf (hspace : Blank space) (hatom : Atom text)
    (hfirst : text.head? ≠ some 40) (hback : Blank back) (hclosed : Closes text back rest)
    {c : Cursor} {operator : UInt8}
    {read : Cursor → Bytes → Except Failure (Key × List Bytes)}
    (hread : ∀ start, ∃ asked, read start text = .ok (key, asked)) :
    ∃ asked, operandOutcome c operator (space ++ (text ++ (back ++ rest))) read =
      .ok (key, ⟨c.pos + (operator :: (space ++ text) ++ back).length, rest, asked⟩) := by
  have hlength : c.pos + (operator :: (space ++ text) ++ back).length =
      c.pos + 1 + space.length + (text ++ back).length := by
    simp only [List.length_append, List.length_cons]
    omega
  have hskip := skipSpace_append hspace (hatom.head (back ++ rest)) (c.pos + 1) c.asked
  obtain ⟨asked, hr⟩ := hread ⟨c.pos + 1 + space.length, text ++ (back ++ rest), c.asked⟩
  have hhead : ((text ++ (back ++ rest)).head? == some 40) = false := by
    obtain ⟨b, r, rfl⟩ := List.exists_cons_of_ne_nil hatom.ne_nil
    exact beq_false_of_ne hfirst
  refine ⟨asked, ?_⟩
  rw [operandOutcome, hlength]
  dsimp only
  rw [hskip]
  dsimp only
  rw [hhead, if_neg Bool.false_ne_true, scanKey_atom hatom hback hclosed]
  dsimp only
  rw [if_neg hatom.ne_nil, hr]
  rfl

theorem notOutcome_takes {operator : UInt8} {make : Nat → Dbref → Key} (h : Takes operator make)
    (c : Cursor) (after : Bytes) :
    notOutcome ctx c (operator :: after) = objectOutcome ctx c operator after make := by
  cases h with
  | is => rfl
  | carry => rfl
  | owner => rfl

theorem Leaf.outcome (h : Leaf ctx pos text key) (hback : Blank back)
    (hclosed : Closes text back rest) (asked : List Bytes) :
    ∃ asked', notOutcome ctx ⟨pos, text ++ (back ++ rest), asked⟩ (text ++ (back ++ rest)) =
      .ok (key, ⟨pos + (text ++ back).length, rest, asked'⟩) := by
  cases h with
  | key atom first spells =>
    obtain ⟨b, r, rfl⟩ := List.exists_cons_of_ne_nil atom.ne_nil
    obtain ⟨asked', hread⟩ := readKey_iff (c := ⟨pos, b :: r ++ (back ++ rest), asked⟩).2 spells
    refine ⟨asked', ?_⟩
    rw [List.cons_append, notOutcome_key (first b r rfl), outcome_parseKey, ← List.cons_append,
      scanKey_atom atom hback hclosed]
    dsimp only
    rw [if_neg atom.ne_nil, hread]
    rfl
  | @indirect _ _ lock d blank atom first leads =>
    rw [List.cons_append, notOutcome_indirect, List.append_assoc]
    apply operandOutcome_leaf blank atom first hback (hclosed.behind rfl blank)
    intro start
    obtain ⟨asked', hread⟩ := readIndirect_iff (c := start).2 leads
    rw [hread]
    exact ⟨asked', rfl⟩
  | @object operator make _ _ d takes blank atom first names =>
    rw [List.cons_append, notOutcome_takes takes, List.append_assoc]
    apply operandOutcome_leaf blank atom first hback (hclosed.behind takes.ne_backslash blank)
    intro start
    obtain ⟨asked', hread⟩ : ∃ asked', readObject ctx start operator _ = .ok (d, asked') :=
      readObject_iff.2 names
    rw [hread]
    exact ⟨asked', rfl⟩

theorem Consumes.one {operator : UInt8} {make : Nat → Key → Key → Key}
    {first more : Cursor → Except Failure (Key × Cursor)} (h : Consumes first pos s key rest)
    (hrest : ∀ r, rest ≠ operator :: r) :
    Consumes (fun c => first c >>= fun p => proceed operator make more p.1 p.2) pos s key
      rest := by
  intro asked
  obtain ⟨next, hread, hnext, hpos⟩ := h asked
  refine ⟨next.skipSpace, ?_, ?_, ?_⟩
  · dsimp only
    rw [hread]
    apply proceed_miss
    rwa [hnext]
  · rwa [skipSpace_skipSpace]
  · rwa [skipSpace_skipSpace]

theorem Consumes.more {operator : UInt8} {make : Nat → Key → Key → Key}
    {first more : Cursor → Except Failure (Key × Cursor)}
    (hfirst : Consumes first pos s left (operator :: (t ++ rest)))
    (hmore : Consumes more (pos + s.length + 1) t right rest) :
    Consumes (fun c => first c >>= fun p => proceed operator make more p.1 p.2) pos
      (s ++ operator :: t) (make (pos + s.length) left right) rest := by
  intro asked
  obtain ⟨mid, hread, hmid, hpos⟩ := hfirst asked
  obtain ⟨next, hread', hnext, hpos'⟩ := hmore mid.asked
  refine ⟨next, ?_, hnext, ?_⟩
  · dsimp only
    rw [List.append_assoc, List.cons_append, hread]
    change proceed operator make more left mid = _
    rw [proceed_hit hmid, hpos, hread']
    rfl
  · rw [hpos', List.length_append, List.length_cons]
    omega

theorem readNot_append (hspace : Blank space) (ht : ∀ b r, t = b :: r → isSpace b = false)
    (pos : Nat) (asked : List Bytes) :
    readNot ctx ⟨pos, space ++ t, asked⟩ = notOutcome ctx ⟨pos + space.length, t, asked⟩ t := by
  rw [readNot, outcome_parseNot, skipSpace_append hspace ht]

/-- What is derived is read. -/
theorem Derives.consumes (h : Derives ctx level last pos s key) (hrest : Follows last rest)
    (hstops : level.Stops rest) : Consumes (level.read ctx) pos s key rest := by
  induction h generalizing rest with
  | @leaf last pos space text back key blank leaf trailing closed =>
    intro asked
    have hcloses := Closes.of_follows hrest closed
    obtain ⟨asked', hread⟩ := leaf.outcome trailing hcloses asked
    refine ⟨⟨pos + space.length + (text ++ back).length, rest, asked'⟩, ?_, ?_, ?_⟩
    · change readNot ctx _ = _
      rw [List.append_assoc, List.append_assoc, readNot_append blank (leaf.head _), hread]
    · rw [hcloses.skipSpace]
    · rw [hcloses.skipSpace]
      simp only [List.length_append, Nat.add_assoc]
  | @group last pos space s back key blank inner trailing ih =>
    intro asked
    have hstop : Level.or.Stops (41 :: (back ++ rest)) := by
      constructor
      · intro r heq
        cases heq
      · intro r heq
        cases heq
    obtain ⟨mid, hread, hmid, hpos⟩ := ih (.inr ⟨rfl, 41, _, rfl, rfl⟩) hstop asked
    have hskip : Cursor.skipSpace ⟨mid.skipSpace.pos + 1, back ++ rest, mid.asked⟩ =
        ⟨mid.skipSpace.pos + 1 + back.length, rest, mid.asked⟩ :=
      skipSpace_append trailing (fun _ _ => hrest.head) _ _
    refine ⟨⟨mid.skipSpace.pos + 1, back ++ rest, mid.asked⟩, ?_, ?_, ?_⟩
    · change readNot ctx _ = _
      rw [List.append_assoc, List.cons_append, List.append_assoc, List.cons_append,
        readNot_append blank (fun b r heq => by cases heq; rfl)]
      change groupOutcome ctx ⟨pos + space.length + 1, s ++ 41 :: (back ++ rest), asked⟩ = _
      rw [groupOutcome, show outcome (parseOr ctx _) = _ from hread]
      change closeOutcome key mid.skipSpace mid.skipSpace.rest = _
      rw [hmid]
      rfl
    · rw [hskip]
    · rw [hskip, hpos]
      simp only [List.length_append, List.length_cons]
      omega
  | @not last pos space s key blank operand ih =>
    intro asked
    obtain ⟨next, hread, hnext, hpos⟩ := ih hrest trivial asked
    refine ⟨next, ?_, hnext, ?_⟩
    · change readNot ctx _ = _
      rw [List.append_assoc, List.cons_append,
        readNot_append blank (fun b r heq => by cases heq; rfl)]
      change (readNot ctx ⟨pos + space.length + 1, s ++ rest, asked⟩).map _ = _
      rw [show readNot ctx _ = _ from hread]
      rfl
    · rw [hpos]
      simp only [List.length_append, List.length_cons]
      omega
  | oneAnd one ih =>
    rw [Level.read, readAnd_eq]
    exact (ih hrest trivial).one hstops
  | @and last pos s t left right first more ihl ihr =>
    rw [Level.read, readAnd_eq]
    exact (ihl (.inr ⟨rfl, 38, _, rfl, rfl⟩) trivial).more (ihr hrest hstops)
  | oneOr one ih =>
    rw [Level.read, readOr_eq]
    exact (ih hrest hstops.1).one hstops.2
  | @or last pos s t left right first more ihl ihr =>
    rw [Level.read, readOr_eq]
    exact (ihl (.inr ⟨rfl, 124, _, rfl, rfl⟩) fun _ heq => by cases heq).more (ihr hrest hstops)

/-- A text that was scanned where no white space stands. -/
structure ScannedAtom (c : Cursor) (text back : Bytes) (next : Cursor) : Prop where
  split : c.rest = text ++ (back ++ next.rest)
  pos : next.pos = c.pos + (text ++ back).length
  atom : Atom text
  blank : Blank back
  closes : Closes text back next.rest

theorem scanKey_scannedAtom {c : Cursor} (hhead : ∀ b r, c.rest = b :: r → isSpace b = false)
    (hne : c.scanKey.1 ≠ []) : ∃ back, ScannedAtom c c.scanKey.1 back c.scanKey.2 := by
  have hscan := scanKey_scanned c
  have happ := Parser.span_append endsKey c.rest
  obtain ⟨front, back, hsplit, hfront, hback, -, hclosed⟩ :
      Padded c.scanKey.1 (span endsKey c.rest).1 :=
    padded_iff.2 rfl
  have hnil : front = [] := by
    rcases front with _ | ⟨f, front⟩
    · rfl
    · rw [hsplit] at happ
      have hspace := hhead f _ happ.symm
      rw [hfront f List.mem_cons_self] at hspace
      cases hspace
  rw [hnil, List.nil_append] at hsplit
  refine ⟨back, ?_, ?_, ⟨hne, hscan.trimmed, hscan.clear⟩, hback, ?_, ?_⟩
  · rw [← List.append_assoc, ← hsplit]
    exact happ.symm
  · rw [← hsplit]
    rfl
  · intro hp
    refine ⟨hclosed hp, ?_⟩
    rcases hscan.ends with hnil | ⟨hpend, -⟩
    · exact hnil
    · rw [hp] at hpend
      cases hpend
  · rcases hscan.ends with hnil | ⟨-, hb⟩
    · exact .inl hnil
    · exact .inr hb

/-- What was read is derived, up to where white space ends. -/
def Explained (ctx : ParseContext) (level : Level) (c : Cursor)
    (x : Except Failure (Key × Cursor)) : Prop :=
  ∀ key next, x = .ok (key, next) → ∃ s, c.rest = s ++ next.skipSpace.rest ∧
    next.skipSpace.pos = c.pos + s.length ∧
    Derives ctx level next.skipSpace.rest.isEmpty c.pos s key

theorem takeWhile_blank (s : Bytes) : Blank (s.takeWhile isSpace) := fun _ hb =>
  List.mem_takeWhile_imp hb

theorem skipSpace_split (c : Cursor) : c.rest = c.rest.takeWhile isSpace ++ c.skipSpace.rest :=
  List.takeWhile_append_dropWhile.symm

/-- A scanned leaf, with white space before it, is derived as one operand. -/
theorem ScannedAtom.explained {c start next : Cursor} (h : ScannedAtom start text back next)
    (hspace : Blank space) (hsplit : c.rest = space ++ (t ++ start.rest))
    (hpos : start.pos = c.pos + (space ++ t).length)
    (hleaf : Leaf ctx (c.pos + space.length) (t ++ text) key)
    (hpending : pending false (t ++ text) = pending false text) (asked : List Bytes) :
    ∃ u, c.rest = u ++ (Cursor.skipSpace { next with asked }).rest ∧
      (Cursor.skipSpace { next with asked }).pos = c.pos + u.length ∧
      Derives ctx .operand (Cursor.skipSpace { next with asked }).rest.isEmpty c.pos u key := by
  rw [h.closes.skipSpace]
  refine ⟨space ++ ((t ++ text) ++ back), ?_, ?_, ?_⟩
  · rw [hsplit, h.split]
    simp only [List.append_assoc]
  · rw [h.pos, hpos]
    simp only [List.length_append]
    omega
  · apply Derives.leaf hspace hleaf h.blank
    intro hp
    rw [hpending] at hp
    obtain ⟨hback, hrest⟩ := h.closes.1 hp
    exact ⟨hback, by rw [hrest]; rfl⟩

theorem parseKey_explained {c : Cursor}
    (hfirst : ∀ b r, c.skipSpace.rest = b :: r → isOperator b = false) :
    Explained ctx .operand c (outcome (parseKey ctx c.skipSpace)) := by
  intro key next h
  rw [outcome_parseKey] at h
  split at h
  · cases h
  rename_i hne
  rcases hread : readKey ctx c.skipSpace c.skipSpace.scanKey.1 with e | ⟨key', asked⟩
  · rw [hread] at h
    cases h
  rw [hread] at h
  cases h
  obtain ⟨back, hscan⟩ := scanKey_scannedAtom (fun b r => skipSpace_head c) hne
  have hleaf :
      Leaf ctx (c.pos + (c.rest.takeWhile isSpace).length) c.skipSpace.scanKey.1 key' := by
    apply Leaf.key hscan.atom
    · intro b r htext
      apply hfirst b (r ++ (back ++ c.skipSpace.scanKey.2.rest))
      rw [hscan.split, htext]
      rfl
    · exact readKey_iff.1 ⟨asked, hread⟩
  exact hscan.explained (t := []) (takeWhile_blank c.rest) (skipSpace_split c)
    (by rw [List.append_nil]; rfl) hleaf rfl asked

theorem operandOutcome_explained {c : Cursor} {operator : UInt8} {after : Bytes}
    {read : Cursor → Bytes → Except Failure (Key × List Bytes)}
    (hoperator : (operator == backslash) = false)
    (hc : c.skipSpace.rest = operator :: after)
    (hleaf : ∀ start text key asked space, read start text = .ok (key, asked) → Blank space →
      Atom text → text.head? ≠ some 40 →
      Leaf ctx c.skipSpace.pos (operator :: (space ++ text)) key) :
    Explained ctx .operand c (operandOutcome c.skipSpace operator after read) := by
  intro key next h
  rw [operandOutcome] at h
  dsimp only at h
  have hafter :
      ∃ space start, Cursor.skipSpace ⟨c.skipSpace.pos + 1, after, c.skipSpace.asked⟩ = start ∧
      Blank space ∧ after = space ++ start.rest ∧
      start.pos = c.skipSpace.pos + 1 + space.length ∧
      ∀ b r, start.rest = b :: r → isSpace b = false :=
    ⟨_, _, rfl, takeWhile_blank after, skipSpace_split ⟨_, after, _⟩, rfl,
      fun _ _ => skipSpace_head _⟩
  obtain ⟨space, start, hstart, hspace, hsplit, hpos, hhead⟩ := hafter
  rw [hstart] at h
  split at h
  · cases h
  rename_i hparen
  split at h
  · cases h
  rename_i hne
  rcases hread : read start start.scanKey.1 with e | ⟨key', asked⟩
  · rw [hread] at h
    cases h
  rw [hread] at h
  cases h
  obtain ⟨back, hscan⟩ := scanKey_scannedAtom hhead hne
  have hfirst : start.scanKey.1.head? ≠ some 40 := by
    obtain ⟨b, r, htext⟩ := List.exists_cons_of_ne_nil hne
    rw [hscan.split, htext] at hparen
    rw [htext]
    exact fun heq => hparen (beq_iff_eq.2 heq)
  refine hscan.explained (t := operator :: space) (takeWhile_blank c.rest) ?_ ?_
    (hleaf _ _ _ _ space hread hspace hscan.atom hfirst) ?_ asked
  · rw [List.cons_append, ← hsplit, ← hc]
    exact skipSpace_split c
  · rw [hpos, Cursor.skipSpace]
    simp only [List.length_append, List.length_cons]
    omega
  · rw [List.cons_append, pending_cons, hoperator, Bool.and_false, pending_append,
      hspace.pending]

theorem objectOutcome_explained {c : Cursor} {operator : UInt8} {make : Nat → Dbref → Key}
    {after : Bytes} (takes : Takes operator make) (hc : c.skipSpace.rest = operator :: after) :
    Explained ctx .operand c (objectOutcome ctx c.skipSpace operator after make) := by
  apply operandOutcome_explained _ hc
  · intro start text key asked space hread hspace hatom hfirst
    rcases hr : readObject ctx start operator text with e | ⟨d, asked'⟩
    · rw [hr] at hread
      cases hread
    · rw [hr] at hread
      cases hread
      exact .object takes hspace hatom hfirst (readObject_iff.1 ⟨_, hr⟩)
  · exact takes.ne_backslash

theorem negation_explained {c : Cursor} {after : Bytes} (hc : c.skipSpace.rest = 33 :: after)
    (hnot : Explained ctx .operand ⟨c.skipSpace.pos + 1, after, c.skipSpace.asked⟩
      (readNot ctx ⟨c.skipSpace.pos + 1, after, c.skipSpace.asked⟩)) :
    Explained ctx .operand c
      ((readNot ctx ⟨c.skipSpace.pos + 1, after, c.skipSpace.asked⟩).map fun p =>
      (.not c.skipSpace.pos p.1, p.2)) := by
  intro key next h
  rcases hr : readNot ctx ⟨c.skipSpace.pos + 1, after, c.skipSpace.asked⟩ with
    e | ⟨operand, next'⟩
  · rw [hr] at h
    cases h
  · rw [hr] at h
    cases h
    obtain ⟨s, hs, hpos, hderives⟩ := hnot operand next' hr
    refine ⟨c.rest.takeWhile isSpace ++ 33 :: s, ?_, ?_, ?_⟩
    · rw [List.append_assoc, List.cons_append, ← show after = _ from hs, ← hc]
      exact skipSpace_split c
    · rw [hpos, Cursor.skipSpace]
      simp only [List.length_append, List.length_cons]
      omega
    · exact .not (takeWhile_blank c.rest) hderives

theorem groupOutcome_explained {c : Cursor} {after : Bytes}
    (hc : c.skipSpace.rest = 40 :: after)
    (hor : Explained ctx .or ⟨c.skipSpace.pos + 1, after, c.skipSpace.asked⟩
      (readOr ctx ⟨c.skipSpace.pos + 1, after, c.skipSpace.asked⟩)) :
    Explained ctx .operand c
      (groupOutcome ctx ⟨c.skipSpace.pos + 1, after, c.skipSpace.asked⟩) := by
  intro key next h
  rw [groupOutcome] at h
  rcases hr : readOr ctx ⟨c.skipSpace.pos + 1, after, c.skipSpace.asked⟩ with e | ⟨inner, mid⟩
  · rw [show outcome (parseOr ctx _) = _ from hr] at h
    cases h
  · rw [show outcome (parseOr ctx _) = _ from hr] at h
    change closeOutcome inner mid.skipSpace mid.skipSpace.rest = _ at h
    obtain ⟨s, hs, hpos, hderives⟩ := hor inner mid hr
    unfold closeOutcome at h
    split at h
    · rename_i after' hmid
      cases h
      rw [hmid] at hs hderives
      refine ⟨c.rest.takeWhile isSpace ++ 40 :: (s ++ 41 :: after'.takeWhile isSpace),
        ?_, ?_, ?_⟩
      · have hclose := skipSpace_split ⟨mid.skipSpace.pos + 1, after', mid.skipSpace.asked⟩
        simp only [List.append_assoc, List.cons_append]
        rw [← show after' = _ from hclose, ← show after = _ from hs, ← hc]
        exact skipSpace_split c
      · rw [Cursor.skipSpace]
        dsimp only
        rw [hpos, Cursor.skipSpace]
        simp only [List.length_append, List.length_cons]
        omega
      · exact .group (takeWhile_blank c.rest) hderives (takeWhile_blank after')
    · cases h

theorem notOutcome_explained {c : Cursor}
    (hnot : ∀ c' : Cursor, c'.rest.length < c.rest.length →
      Explained ctx .operand c' (readNot ctx c'))
    (hor : ∀ c' : Cursor, c'.rest.length < c.rest.length →
      Explained ctx .or c' (readOr ctx c')) :
    Explained ctx .operand c (notOutcome ctx c.skipSpace c.skipSpace.rest) := by
  have hshort {b : UInt8} {after : Bytes} (hc : c.skipSpace.rest = b :: after) :
      after.length < c.rest.length := by
    have hskip := c.skipSpace_length
    rw [hc, List.length_cons] at hskip
    omega
  unfold notOutcome
  split
  · rename_i after hc
    exact negation_explained hc (hnot _ (hshort hc))
  · rename_i after hc
    apply operandOutcome_explained rfl hc
    intro start text key asked space hread hspace hatom hfirst
    rcases hr : readIndirect ctx start text with e | ⟨d, lock, asked'⟩
    · rw [hr] at hread
      cases hread
    · rw [hr] at hread
      cases hread
      exact .indirect hspace hatom hfirst (readIndirect_iff.1 ⟨_, hr⟩)
  · rename_i after hc
    exact objectOutcome_explained .is hc
  · rename_i after hc
    exact objectOutcome_explained .carry hc
  · rename_i after hc
    exact objectOutcome_explained .owner hc
  · rename_i after hc
    exact groupOutcome_explained hc (hor _ (hshort hc))
  · rename_i h1 h2 h3 h4 h5 h6
    apply parseKey_explained
    intro b r hc
    rcases hop : isOperator b with _ | _
    · rfl
    · simp only [isOperator, Bool.or_eq_true, beq_iff_eq] at hop
      rcases hop with ((((rfl | rfl) | rfl) | rfl) | rfl) | rfl
      · exact (h1 r hc).elim
      · exact (h2 r hc).elim
      · exact (h3 r hc).elim
      · exact (h4 r hc).elim
      · exact (h5 r hc).elim
      · exact (h6 r hc).elim

/-- Keys that an operator joins are derived if the first of them is, and the others are. -/
theorem proceed_explained {c : Cursor} {operator : UInt8} {make : Nat → Key → Key → Key}
    {level' : Level} {first : Except Failure (Key × Cursor)}
    {more : Cursor → Except Failure (Key × Cursor)}
    (hfirst : Explained ctx level' c first)
    (hlength : ∀ key next, first = .ok (key, next) → next.rest.length < c.rest.length)
    (hmore : ∀ c' : Cursor, c'.rest.length < c.rest.length → Explained ctx level c' (more c'))
    (hone : ∀ last pos s key, Derives ctx level' last pos s key →
      Derives ctx level last pos s key)
    (hjoin : ∀ last pos s t left right, Derives ctx level' false pos s left →
      Derives ctx level last (pos + s.length + 1) t right →
        Derives ctx level last pos (s ++ operator :: t) (make (pos + s.length) left right)) :
    Explained ctx level c (first >>= fun p => proceed operator make more p.1 p.2) := by
  intro key next h
  rcases hf : first with e | ⟨left, mid⟩
  · rw [hf] at h
    cases h
  rw [hf] at h
  change proceed operator make more left mid = .ok (key, next) at h
  obtain ⟨s, hs, hpos, hleft⟩ := hfirst left mid hf
  by_cases hhit : ∃ after, mid.skipSpace.rest = operator :: after
  · obtain ⟨after, hhit⟩ := hhit
    have hshort : after.length < c.rest.length := by
      have hskip := mid.skipSpace_length
      have hmid := hlength left mid hf
      rw [hhit, List.length_cons] at hskip
      omega
    rw [proceed_hit hhit] at h
    rcases hm : more ⟨mid.skipSpace.pos + 1, after, mid.asked⟩ with e | ⟨right, last⟩
    · rw [hm] at h
      cases h
    rw [hm] at h
    cases h
    obtain ⟨t, ht, hpos', hright⟩ := hmore _ hshort right last hm
    rw [hhit] at hs hleft
    rw [hpos] at hright hpos' ⊢
    refine ⟨s ++ operator :: t, ?_, ?_, hjoin _ _ _ _ _ _ hleft hright⟩
    · rw [List.append_assoc, List.cons_append, ← show after = _ from ht, hs]
    · rw [hpos']
      simp only [List.length_append, List.length_cons]
      omega
  · rw [proceed_miss fun after ha => hhit ⟨after, ha⟩] at h
    cases h
    rw [skipSpace_skipSpace]
    exact ⟨s, hs, hpos, hone _ _ _ _ hleft⟩

theorem read_explained (n : Nat) (c : Cursor) (hn : c.rest.length < n) :
    Explained ctx .operand c (readNot ctx c) ∧ Explained ctx .and c (readAnd ctx c) ∧
      Explained ctx .or c (readOr ctx c) := by
  -- the readers call one another on shorter texts, or on the same text at a tighter level
  induction n generalizing c with
  | zero => exact absurd hn (Nat.not_lt_zero _)
  | succ n ih =>
    have hshort {c' : Cursor} (hc' : c'.rest.length < c.rest.length) :
        c'.rest.length < n := by omega
    have hnot : Explained ctx .operand c (readNot ctx c) := by
      rw [readNot, outcome_parseNot]
      exact notOutcome_explained (fun c' hc' => (ih c' (hshort hc')).1) fun c' hc' =>
        (ih c' (hshort hc')).2.2
    have hand : Explained ctx .and c (readAnd ctx c) := by
      rw [readAnd_eq]
      exact proceed_explained hnot (fun key next => outcome_length)
        (fun c' hc' => (ih c' (hshort hc')).2.1) (fun _ _ _ _ => .oneAnd) fun _ _ _ _ _ _ =>
          .and
    refine ⟨hnot, hand, ?_⟩
    rw [readOr_eq]
    exact proceed_explained hand (fun key next => outcome_length)
      (fun c' hc' => (ih c' (hshort hc')).2.2) (fun _ _ _ _ => .oneOr) fun _ _ _ _ _ _ => .or

theorem readOr_skipSpace (c : Cursor) : readOr ctx c.skipSpace = readOr ctx c := by
  have hnot : readNot ctx c.skipSpace = readNot ctx c := by
    rw [readNot, outcome_parseNot, skipSpace_skipSpace]
    exact (outcome_parseNot c).symm
  have hand : readAnd ctx c.skipSpace = readAnd ctx c := by
    rw [readAnd_eq]
    dsimp only
    rw [hnot]
  rw [readOr_eq]
  dsimp only
  rw [hand]

theorem parse_eq (hs : ¬ Blank s) :
    Key.parse ctx s =
      match readOr ctx ⟨0, s, []⟩ with
      | .error e => .error e.error
      | .ok (key, next) =>
        match next.skipSpace.rest with
        | [] => .ok (some key)
        | b :: _ => .error ⟨next.skipSpace.pos, .unexpected b⟩ := by
  have hne : ¬ (Cursor.skipSpace ⟨0, s, []⟩).rest.isEmpty = true := by
    intro hempty
    exact hs (List.dropWhile_eq_nil_iff.1 (List.isEmpty_iff.1 hempty))
  rw [← readOr_skipSpace, Key.parse, parseAll]
  dsimp only
  rw [if_neg hne]
  rcases hr : parseOr ctx (Cursor.skipSpace ⟨0, s, []⟩) with e | parsed
  · rw [readOr, hr]
    rfl
  · rw [readOr, hr]
    dsimp only [outcome, Except.map]
    rcases parsed.next.skipSpace.rest with _ | ⟨b, r⟩
    · rfl
    · rfl

theorem parse_of_blank (hs : Blank s) : Key.parse ctx s = .ok none := by
  have hnil : (Cursor.skipSpace ⟨0, s, []⟩).rest = [] := List.dropWhile_eq_nil_iff.2 hs
  rw [Key.parse, parseAll]
  dsimp only
  rw [hnil]
  rfl

theorem parse_eq_none_iff : Key.parse ctx s = .ok none ↔ Blank s := by
  constructor
  · intro h
    by_contra hs
    rw [parse_eq hs] at h
    split at h
    · cases h
    · split at h
      · cases h
      · cases h
  · exact parse_of_blank

/-- Before white space there is nothing to derive a key from. -/
theorem Derives.not_blank (h : Derives ctx .or true 0 s key) : ¬ Blank s := by
  intro hs
  obtain ⟨next, hread, -⟩ := h.consumes (.inl rfl) (Level.stops_nil _) []
  rw [List.append_nil] at hread
  have hnil : (Cursor.skipSpace ⟨0, s, []⟩).rest = [] := List.dropWhile_eq_nil_iff.2 hs
  have hlength : next.rest.length < (Cursor.skipSpace ⟨0, s, []⟩).rest.length := by
    apply outcome_length
    exact (readOr_skipSpace _).trans hread
  rw [hnil] at hlength
  exact Nat.not_lt_zero _ hlength

theorem parse_eq_some_iff :
    Key.parse ctx s = .ok (some key) ↔ Derives ctx .or true 0 s key := by
  constructor
  · intro h
    have hs : ¬ Blank s := by
      intro hblank
      rw [parse_of_blank hblank] at h
      cases h
    rw [parse_eq hs] at h
    split at h
    · cases h
    · rename_i key' next hread
      split at h
      · rename_i hlast
        cases h
        obtain ⟨u, hu, -, hderives⟩ :=
          (read_explained _ ⟨0, s, []⟩ (Nat.lt_succ_self _)).2.2 key next hread
        rw [hlast] at hu hderives
        rw [List.append_nil] at hu
        obtain rfl : s = u := hu
        exact hderives
      · cases h
  · intro h
    obtain ⟨next, hread, hlast, -⟩ := h.consumes (.inl rfl) (Level.stops_nil _) []
    rw [List.append_nil] at hread
    rw [parse_eq h.not_blank, show readOr ctx ⟨0, s, []⟩ = _ from hread]
    dsimp only
    rw [hlast]

end Grammar
end Locksmith
