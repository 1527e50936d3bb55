import Locksmith.Proofs.Lock.Acceptance

namespace Locksmith
namespace Key

open Escape Grammar Locksmith.Parser

/-- The offsets of a key and of all its parts, in the order of the text. -/
def offsets : Key → List Nat
  | .and pos left right => left.offsets ++ pos :: right.offsets
  | .or pos left right => left.offsets ++ pos :: right.offsets
  | .not pos operand => pos :: operand.offsets
  | .const pos _ => [pos]
  | .is pos _ => [pos]
  | .carry pos _ => [pos]
  | .owner pos _ => [pos]
  | .indirect pos _ _ => [pos]
  | .attr pos _ _ => [pos]
  | .eval pos _ _ => [pos]
  | .flagClass pos _ _ => [pos]
  | .bool pos _ => [pos]

/-- `text` is scanned at an offset of `s`, and its first byte is the one at the offset. -/
structure ScannedAt (s : Bytes) (pos : Nat) (text : Bytes) : Prop where
  scanned : (Cursor.scanKey ⟨pos, s.drop pos, []⟩).1 = text
  starts : text <+: s.drop pos
  first : ∃ b, s[pos]? = some b ∧ text.head? = some b ∧ isSpace b = false

/-- A key without operators is spelled at an offset, where no operator or parenthesis stands. -/
def SpelledAt (ctx : ParseContext) (s : Bytes) (pos : Nat) (key : Key) : Prop :=
  ∃ text, ScannedAt s pos text ∧ (∀ b, s[pos]? = some b → isOperator b = false) ∧
    Spells ctx pos text key

/-- An operator stands at an offset, and behind it, after white space, the text of its object.
-/
structure AppliedAt (s : Bytes) (pos : Nat) (operator : UInt8) (text : Bytes) : Prop where
  operator : s[pos]? = some operator
  operand : ∃ space, Blank space ∧ space <+: s.drop (pos + 1) ∧
    ScannedAt s (pos + 1 + space.length) text

/-- Every part of a key stands in the text where its offset says, operands on their sides of the
operator. -/
def Placed (ctx : ParseContext) (s : Bytes) : Key → Prop
  | .and pos left right => s[pos]? = some 38 ∧ (∀ q ∈ left.offsets, q < pos) ∧
      (∀ q ∈ right.offsets, pos < q) ∧
      left.Placed ctx s ∧ right.Placed ctx s
  | .or pos left right => s[pos]? = some 124 ∧ (∀ q ∈ left.offsets, q < pos) ∧
      (∀ q ∈ right.offsets, pos < q) ∧
      left.Placed ctx s ∧ right.Placed ctx s
  | .not pos operand =>
    s[pos]? = some 33 ∧ (∀ q ∈ operand.offsets, pos < q) ∧ operand.Placed ctx s
  | .indirect pos d lock => ∃ text, AppliedAt s pos 64 text ∧ Leads ctx text d lock
  | .is pos d => ∃ text, AppliedAt s pos 61 text ∧ Names ctx text d
  | .carry pos d => ∃ text, AppliedAt s pos 43 text ∧ Names ctx text d
  | .owner pos d => ∃ text, AppliedAt s pos 36 text ∧ Names ctx text d
  | .const pos d => SpelledAt ctx s pos (.const pos d)
  | .attr pos name pattern => SpelledAt ctx s pos (.attr pos name pattern)
  | .eval pos name pattern => SpelledAt ctx s pos (.eval pos name pattern)
  | .flagClass pos name pattern => SpelledAt ctx s pos (.flagClass pos name pattern)
  | .bool pos value => SpelledAt ctx s pos (.bool pos value)

end Key

namespace Grammar

open Escape Locksmith.Parser

variable {ctx : ParseContext} {level : Level} {last : Bool} {pos : Nat}
  {s t text back space rest before after : Bytes} {key : Key}

theorem scannedAt_atom (hatom : Atom text) (hback : Blank back)
    (hclosed : Closes text back rest) (hs : s = before ++ (text ++ (back ++ rest))) :
    Key.ScannedAt s before.length text := by
  have hdrop : s.drop before.length = text ++ (back ++ rest) := by rw [hs, List.drop_left]
  refine ⟨?_, ?_, ?_⟩
  · rw [hdrop, scanKey_atom hatom hback hclosed]
  · rw [hdrop]
    exact List.prefix_append _ _
  · obtain ⟨b, r, rfl⟩ := List.exists_cons_of_ne_nil hatom.ne_nil
    refine ⟨b, ?_, rfl, hatom.trimmed.head b r rfl⟩
    rw [hs, List.cons_append, List.getElem?_append_right (Nat.le_refl _), Nat.sub_self,
      List.getElem?_cons_zero]

theorem appliedAt_atom {operator : UInt8} (hspace : Blank space) (hatom : Atom text)
    (hback : Blank back) (hclosed : Closes text back rest)
    (hs : s = before ++ (operator :: (space ++ text) ++ (back ++ rest))) :
    Key.AppliedAt s before.length operator text := by
  have hsplit : s = (before ++ operator :: space) ++ (text ++ (back ++ rest)) := by
    rw [hs]
    simp only [List.append_assoc, List.cons_append]
  have hlength : before.length + 1 + space.length = (before ++ operator :: space).length := by
    simp only [List.length_append, List.length_cons]
    omega
  refine ⟨?_, space, hspace, ?_, ?_⟩
  · rw [hs, List.cons_append, List.getElem?_append_right (Nat.le_refl _), Nat.sub_self,
      List.getElem?_cons_zero]
  · have hdrop : s.drop (before.length + 1) = space ++ (text ++ (back ++ rest)) := by
      rw [← List.drop_drop, hs, List.drop_left, List.cons_append, List.drop_succ_cons,
        List.drop_zero, List.append_assoc]
    rw [hdrop]
    exact List.prefix_append _ _
  · rw [hlength]
    exact scannedAt_atom hatom hback hclosed hsplit

theorem Spells.offsets (h : Spells ctx pos text key) : key.offsets = [pos] := by
  cases h with
  | bool => rfl
  | const => rfl
  | attr => rfl
  | eval => rfl
  | flagClass => rfl

theorem Spells.placed (h : Spells ctx pos text key) (hat : Key.SpelledAt ctx s pos key) :
    key.Placed ctx s := by
  cases h with
  | bool => exact hat
  | const => exact hat
  | attr => exact hat
  | eval => exact hat
  | flagClass => exact hat

theorem Leaf.offsets (h : Leaf ctx pos text key) : key.offsets = [pos] := by
  cases h with
  | key atom first spells => exact spells.offsets
  | indirect => rfl
  | object takes =>
    cases takes with
    | is => rfl
    | carry => rfl
    | owner => rfl

theorem Leaf.placed (h : Leaf ctx before.length text key) (hback : Blank back)
    (hclosed : Closes text back rest) (hs : s = before ++ (text ++ (back ++ rest))) :
    key.Placed ctx s := by
  cases h with
  | key atom first spells =>
    have hscanned := scannedAt_atom atom hback hclosed hs
    refine spells.placed ⟨text, hscanned, ?_, spells⟩
    obtain ⟨b, hb, hhead, -⟩ := hscanned.first
    intro b' hb'
    rw [hb] at hb'
    cases hb'
    obtain ⟨r, htext⟩ := List.head?_eq_some_iff.1 hhead
    exact first b r htext
  | indirect blank atom first leads =>
    exact ⟨_, appliedAt_atom blank atom hback (hclosed.behind rfl blank) hs, leads⟩
  | @object operator make space text d takes blank atom first names =>
    have happlied :=
      appliedAt_atom blank atom hback (hclosed.behind takes.ne_backslash blank) hs
    cases takes with
    | is => exact ⟨text, happlied, names⟩
    | carry => exact ⟨text, happlied, names⟩
    | owner => exact ⟨text, happlied, names⟩

theorem Leaf.ne_nil (h : Leaf ctx pos text key) : text ≠ [] := by
  cases h with
  | key atom => exact atom.ne_nil
  | indirect => exact List.cons_ne_nil _ _
  | object => exact List.cons_ne_nil _ _

/-- `t` stands in `s` at an offset, before what may follow a key; where `last` holds nothing
does. -/
def StandsIn (s : Bytes) (last : Bool) (pos : Nat) (t : Bytes) : Prop :=
  ∃ before after, s = before ++ (t ++ after) ∧ before.length = pos ∧ Follows last after

namespace StandsIn

variable {operator : UInt8} {u : Bytes}

theorem byte (h : StandsIn s last pos (u ++ operator :: t)) :
    s[pos + u.length]? = some operator := by
  obtain ⟨before, after, rfl, rfl, -⟩ := h
  rw [← List.append_assoc, ← List.append_assoc, List.append_assoc _ (operator :: t),
    List.cons_append, ← List.length_append, List.getElem?_append_right (Nat.le_refl _),
    Nat.sub_self, List.getElem?_cons_zero]

theorem left (h : StandsIn s last pos (u ++ operator :: t))
    (hoperator : endsKey operator = true) : StandsIn s false pos u := by
  obtain ⟨before, after, rfl, rfl, -⟩ := h
  refine ⟨before, operator :: (t ++ after), ?_, rfl, .inr ⟨rfl, operator, _, rfl, hoperator⟩⟩
  rw [List.append_assoc, List.cons_append]

theorem right (h : StandsIn s last pos (u ++ operator :: t)) :
    StandsIn s last (pos + u.length + 1) t := by
  obtain ⟨before, after, rfl, rfl, hafter⟩ := h
  refine ⟨before ++ (u ++ [operator]), after, ?_, ?_, hafter⟩
  · simp only [List.append_assoc, List.cons_append, List.nil_append]
  · rw [List.length_append, List.length_append, List.length_singleton, Nat.add_assoc]

end StandsIn

/-- A key stands in `s` as its offsets say, and they are all in the part `t` at `pos`. -/
structure PlacedIn (ctx : ParseContext) (s : Bytes) (pos : Nat) (t : Bytes)
    (key : Key) : Prop where
  placed : key.Placed ctx s
  inside : ∀ q ∈ key.offsets, pos ≤ q ∧ q < pos + t.length

theorem Leaf.placedIn (h : Leaf ctx (pos + space.length) text key) (hback : Blank back)
    (hclosed : pending false text = true → back = [] ∧ last = true)
    (hstands : StandsIn s last pos (space ++ (text ++ back))) :
    PlacedIn ctx s pos (space ++ (text ++ back)) key := by
  obtain ⟨before, after, hs, hpos, hafter⟩ := hstands
  have hlength : pos + space.length = (before ++ space).length := by
    rw [List.length_append, hpos]
  constructor
  · rw [hlength] at h
    apply h.placed hback (.of_follows hafter hclosed)
    rw [hs]
    simp only [List.append_assoc]
  · rw [h.offsets]
    intro q hq
    rw [List.mem_singleton] at hq
    have htext := List.length_pos_iff.2 h.ne_nil
    simp only [List.length_append]
    omega

/-- What is on the two sides of an operator, and the operator itself, are within the whole. -/
theorem PlacedIn.joined {u : Bytes} {left right : Key} (hl : PlacedIn ctx s pos u left)
    (hr : PlacedIn ctx s (pos + u.length + 1) t right) (operator : UInt8) :
    ∀ q ∈ left.offsets ++ (pos + u.length) :: right.offsets, pos ≤ q ∧
      q < pos + (u ++ operator :: t).length := by
  intro q hq
  rw [List.length_append, List.length_cons]
  rcases List.mem_append.1 hq with hq | hq
  · have := hl.inside q hq
    omega
  · rcases List.mem_cons.1 hq with rfl | hq
    · omega
    · have := hr.inside q hq
      omega

/-- A key stands in a text as it was derived from a part of it. -/
theorem Derives.placedIn (h : Derives ctx level last pos t key)
    (hstands : StandsIn s last pos t) : PlacedIn ctx s pos t key := by
  induction h with
  | leaf blank leaf trailing closed => exact leaf.placedIn trailing closed hstands
  | group blank inner trailing ih =>
    obtain ⟨hplaced, hinside⟩ := ih (hstands.right.left rfl)
    refine ⟨hplaced, fun q hq => ?_⟩
    have := hinside q hq
    simp only [List.length_append, List.length_cons]
    omega
  | not blank operand ih =>
    obtain ⟨hplaced, hinside⟩ := ih hstands.right
    refine ⟨⟨hstands.byte, fun q hq => (hinside q hq).1, hplaced⟩, fun q hq => ?_⟩
    simp only [List.length_append, List.length_cons]
    rcases List.mem_cons.1 hq with rfl | hq
    · omega
    · have := hinside q hq
      omega
  | oneAnd one ih => exact ih hstands
  | and first more ihl ihr =>
    have hl := ihl (hstands.left rfl)
    have hr := ihr hstands.right
    exact ⟨⟨hstands.byte, fun q hq => (hl.inside q hq).2, fun q hq => (hr.inside q hq).1,
      hl.placed, hr.placed⟩, hl.joined hr 38⟩
  | oneOr one ih => exact ih hstands
  | or first more ihl ihr =>
    have hl := ihl (hstands.left rfl)
    have hr := ihr hstands.right
    exact ⟨⟨hstands.byte, fun q hq => (hl.inside q hq).2, fun q hq => (hr.inside q hq).1,
      hl.placed, hr.placed⟩, hl.joined hr 124⟩

end Grammar

namespace Parser

open Escape

variable {ctx : ParseContext} {c : Cursor} {text : Bytes} {e : Failure}

/-- The offset of the end of the text that a place is in. -/
def Cursor.finish (c : Cursor) : Nat := c.pos + c.rest.length

theorem Cursor.finish_skipSpace (c : Cursor) : c.skipSpace.finish = c.finish := by
  have hlength := congrArg List.length (Grammar.skipSpace_split c)
  rw [List.length_append] at hlength
  rw [finish, finish, hlength, ← Nat.add_assoc]
  rfl

theorem Cursor.finish_scanKey (c : Cursor) : c.scanKey.2.finish = c.finish := by
  have hlength := congrArg List.length (span_append endsKey c.rest)
  rw [List.length_append] at hlength
  rw [finish, finish, ← hlength, ← Nat.add_assoc]
  rfl

/-- From one byte to the next. -/
theorem Cursor.finish_next {b : UInt8} {after : Bytes} (h : c.rest = b :: after)
    (asked : List Bytes) :
    Cursor.finish ⟨c.pos + 1, after, asked⟩ = c.finish := by
  rw [finish, finish, h, List.length_cons]
  dsimp only
  omega

theorem Cursor.pos_le_finish (c : Cursor) : c.pos ≤ c.finish := Nat.le_add_right _ _

theorem resolve_offset (h : resolve ctx c text = .error e) : e.error.offset = c.pos := by
  rw [resolve] at h
  split at h
  · split at h
    · split at h
      · cases h
      · cases h
        rfl
    · cases h
      rfl
  · dsimp only at h
    split at h
    · cases h
      rfl
    · split at h
      · cases h
        rfl
      · split at h
        · cases h
        · cases h
          rfl

theorem map_resolve_offset {α : Type} {f : Dbref × List Bytes → α}
    (h : (resolve ctx c text).map f = .error e) : e.error.offset = c.pos := by
  rcases hr : resolve ctx c text with e' | p
  · rw [hr] at h
    cases h
    exact resolve_offset hr
  · rw [hr] at h
    cases h

theorem readKey_offset (h : readKey ctx c text = .error e) : e.error.offset = c.pos := by
  rw [readKey] at h
  split at h
  · cases h
  · split at h
    · exact map_resolve_offset h
    · dsimp only at h
      split at h
      · cases h
        rfl
      · split at h
        · cases h
        · split at h
          · cases h
          · split at h
            · cases h
            · cases h
              rfl

theorem readObject_offset {operator : UInt8} (h : readObject ctx c operator text = .error e) :
    e.error.offset = c.pos := by
  rw [readObject] at h
  split at h
  · cases h
    rfl
  · exact resolve_offset h

theorem readIndirect_offset (h : readIndirect ctx c text = .error e) :
    e.error.offset = c.pos := by
  have hnamed {object name : Bytes} (h : (if name.isEmpty then c.fail (.needsLockName object)
      else (resolve ctx c object).map fun p => (p.1, name, p.2)) = .error e) :
      e.error.offset = c.pos := by
    split at h
    · cases h
      rfl
    · exact map_resolve_offset h
  rw [readIndirect] at h
  rcases hcut : cut (· == 47) text with _ | ⟨before, b, after⟩
  · rw [hcut] at h
    exact hnamed h
  · rw [hcut] at h
    exact hnamed h

/-- A reading stays within a text that ends at `n`: mistakes are found up to there, and what is
left ends there. -/
def Within (n : Nat) : Except Failure (Key × Cursor) → Prop
  | .error e => e.error.offset ≤ n
  | .ok p => p.2.finish = n

theorem within_fail {n : Nat} (h : c.finish = n) (cause : ParseError.Cause) :
    Within n (c.fail cause) :=
  h ▸ c.pos_le_finish

theorem Within.map {n : Nat} {x : Except Failure (Key × Cursor)} (h : Within n x)
    (f : Key → Key) :
    Within n (x.map fun p => (f p.1, p.2)) := by
  rcases x with e | p
  · exact h
  · exact h

theorem Within.bind {n : Nat} {x : Except Failure (Key × Cursor)}
    {f : Key × Cursor → Except Failure (Key × Cursor)}
    (h : Within n x)
    (hf : ∀ key next, x = .ok (key, next) → next.finish = n → Within n (f (key, next))) :
    Within n (x >>= f) := by
  rcases x with e | p
  · exact h
  · exact hf p.1 p.2 rfl h

theorem within_scanned {read : Except Failure (Key × List Bytes)}
    (hread : ∀ e, read = .error e → e.error.offset = c.pos) :
    Within c.finish (read.map fun p => (p.1, { c.scanKey.2 with asked := p.2 })) := by
  rcases read with e | p
  · exact (hread e rfl).trans_le c.pos_le_finish
  · exact c.finish_scanKey

theorem parseKey_within (c : Cursor) : Within c.finish (outcome (parseKey ctx c)) := by
  rw [outcome_parseKey]
  split
  · exact within_fail rfl _
  · exact within_scanned fun _ => readKey_offset

theorem operandOutcome_within {operator : UInt8} {after : Bytes}
    (hc : c.rest = operator :: after)
    {read : Cursor → Bytes → Except Failure (Key × List Bytes)}
    (hread : ∀ start text e, read start text = .error e → e.error.offset = start.pos) :
    Within c.finish (operandOutcome c operator after read) := by
  have hstart : (Cursor.skipSpace ⟨c.pos + 1, after, c.asked⟩).finish = c.finish :=
    (Cursor.finish_skipSpace _).trans (Cursor.finish_next hc _)
  rw [operandOutcome]
  dsimp only
  split
  · exact within_fail hstart _
  · split
    · exact within_fail hstart _
    · rw [← hstart]
      exact within_scanned (hread _ _)

theorem objectOutcome_within {operator : UInt8} {after : Bytes}
    (hc : c.rest = operator :: after) (make : Nat → Dbref → Key) :
    Within c.finish (objectOutcome ctx c operator after make) := by
  apply operandOutcome_within hc
  intro start text e h
  rcases hr : readObject ctx start operator text with e' | p
  · rw [hr] at h
    cases h
    exact readObject_offset hr
  · rw [hr] at h
    cases h

theorem closeOutcome_within (key : Key) (c : Cursor) :
    Within c.finish (closeOutcome key c c.rest) := by
  unfold closeOutcome
  split
  · rename_i after hrest
    exact Cursor.finish_next hrest _
  · exact within_fail rfl _

theorem groupOutcome_within (h : Within c.finish (readOr ctx c)) :
    Within c.finish (groupOutcome ctx c) := by
  apply Within.bind h
  rintro key next - hnext
  rw [← hnext, ← next.finish_skipSpace]
  exact closeOutcome_within key next.skipSpace

theorem notOutcome_within
    (hnot : ∀ c' : Cursor, c'.rest.length < c.rest.length → Within c'.finish (readNot ctx c'))
    (hor : ∀ c' : Cursor, c'.rest.length < c.rest.length → Within c'.finish (readOr ctx c')) :
    Within c.finish (notOutcome ctx c c.rest) := by
  have hshort {b : UInt8} {after : Bytes} (hc : c.rest = b :: after) :
      after.length < c.rest.length := by
    rw [hc, List.length_cons]
    exact Nat.lt_succ_self _
  unfold notOutcome
  split
  · rename_i after hc
    rw [← Cursor.finish_next hc c.asked]
    exact (hnot _ (hshort hc)).map _
  · rename_i after hc
    apply operandOutcome_within hc
    intro start text e h
    rcases hr : readIndirect ctx start text with e' | p
    · rw [hr] at h
      cases h
      exact readIndirect_offset hr
    · rw [hr] at h
      cases h
  · rename_i after hc
    exact objectOutcome_within hc _
  · rename_i after hc
    exact objectOutcome_within hc _
  · rename_i after hc
    exact objectOutcome_within hc _
  · rename_i after hc
    rw [← Cursor.finish_next hc c.asked]
    exact groupOutcome_within (hor _ (hshort hc))
  · exact parseKey_within c

theorem proceed_within {operator : UInt8} {make : Nat → Key → Key → Key}
    {first : Except Failure (Key × Cursor)} {more : Cursor → Except Failure (Key × Cursor)}
    (hfirst : Within c.finish first)
    (hlength : ∀ key next, first = .ok (key, next) → next.rest.length < c.rest.length)
    (hmore : ∀ c' : Cursor, c'.rest.length < c.rest.length → Within c'.finish (more c')) :
    Within c.finish (first >>= fun p => proceed operator make more p.1 p.2) := by
  apply hfirst.bind
  intro left mid hleft hmid
  rw [← hmid, ← mid.finish_skipSpace]
  by_cases hhit : ∃ after, mid.skipSpace.rest = operator :: after
  · obtain ⟨after, hhit⟩ := hhit
    have hshort : after.length < c.rest.length := by
      have hskip := mid.skipSpace_length
      have := hlength left mid hleft
      rw [hhit, List.length_cons] at hskip
      omega
    rw [proceed_hit hhit, ← Cursor.finish_next hhit mid.asked]
    exact (hmore _ hshort).map _
  · rw [proceed_miss fun after ha => hhit ⟨after, ha⟩]
    exact rfl

theorem read_within (n : Nat) (c : Cursor) (hn : c.rest.length < n) :
    Within c.finish (readNot ctx c) ∧ Within c.finish (readAnd ctx c) ∧
    Within c.finish (readOr ctx c) := by
  -- as in reading itself, the text gets shorter or the level tighter
  induction n generalizing c with
  | zero => exact absurd hn (Nat.not_lt_zero _)
  | succ n ih =>
    have hshort {c' : Cursor} (hc' : c'.rest.length < c.rest.length) :
        c'.rest.length < n := by omega
    have hnot : Within c.finish (readNot ctx c) := by
      rw [readNot, outcome_parseNot, ← c.finish_skipSpace]
      have hskip := c.skipSpace_length
      exact notOutcome_within (fun c' hc' => (ih c' (hshort (hc'.trans_le hskip))).1)
        fun c' hc' => (ih c' (hshort (hc'.trans_le hskip))).2.2
    have hand : Within c.finish (readAnd ctx c) := by
      rw [readAnd_eq]
      exact proceed_within hnot (fun _ _ => outcome_length) fun c' hc' =>
        (ih c' (hshort hc')).2.1
    refine ⟨hnot, hand, ?_⟩
    rw [readOr_eq]
    exact proceed_within hand (fun _ _ => outcome_length) fun c' hc' => (ih c' (hshort hc')).2.2

end Parser

namespace Key

open Escape Grammar Locksmith.Parser

theorem parse_error_offset {ctx : ParseContext} {s : Bytes} {e : ParseError}
    (h : parse ctx s = .error e) : e.offset ≤ s.length := by
  have hs : ¬ Blank s := by
    intro hblank
    rw [parse_of_blank hblank] at h
    cases h
  have hwithin : Within (Cursor.finish ⟨0, s, []⟩) (readOr ctx ⟨0, s, []⟩) :=
    (read_within _ ⟨0, s, []⟩ (Nat.lt_succ_self _)).2.2
  rw [Cursor.finish, Nat.zero_add] at hwithin
  rw [parse_eq hs] at h
  rcases hread : readOr ctx ⟨0, s, []⟩ with e' | ⟨key, next⟩
  · rw [hread] at h hwithin
    cases h
    exact hwithin
  · rw [hread] at h hwithin
    dsimp only at h
    have hend : next.skipSpace.finish = s.length := next.finish_skipSpace.trans hwithin
    rcases hrest : next.skipSpace.rest with _ | ⟨b, r⟩
    · rw [hrest] at h
      cases h
    · rw [hrest] at h
      cases h
      exact hend ▸ next.skipSpace.pos_le_finish

/-- The offsets that reading a text gives are faithful. That of a mistake is at most the length
of the text. Those of a key are all in the text; `&`, `|`, `!`, `@`, `=`, `+` and `$` stand
where their nodes say, with the left operand before and the right operand or the object after
them, and every other leaf is spelled from its offset on. -/
theorem parse_offsets (ctx : ParseContext) (s : Bytes) :
    (∀ e, parse ctx s = .error e → e.offset ≤ s.length) ∧
      ∀ key, parse ctx s = .ok (some key) →
        key.Placed ctx s ∧ ∀ q ∈ key.offsets, q < s.length := by
  refine ⟨fun e => parse_error_offset, fun key h => ?_⟩
  have hstands : StandsIn s true 0 s :=
    ⟨[], [], by rw [List.append_nil, List.nil_append], rfl, .inl rfl⟩
  have hplaced := (parse_eq_some_iff.1 h).placedIn hstands
  refine ⟨hplaced.placed, fun q hq => ?_⟩
  have := (hplaced.inside q hq).2
  rwa [Nat.zero_add] at this

def loadingUse : ParseContext := ⟨none, none, .nothing, "Use", true⟩

/-- In `=#1&!#2` the operators stand at 0, 3 and 4 and the leaf at 5; in `(#1` something is
missing at the end. -/
theorem parse_offsets_joined :
    (parse loadingUse "=#1&!#2" = .ok (some (.and 3 (.is 0 1) (.not 4 (.const 5 2)))) ∧
      (and 3 (.is 0 1) (.not 4 (.const 5 2))).Placed loadingUse "=#1&!#2") ∧
    parse loadingUse "(#1" = .error ⟨3, .missingClose⟩ ∧ 3 ≤ ("(#1" : Bytes).length := by
  have hleaf : readNot loadingUse ⟨5, "#2", []⟩ = .ok (.const 5 2, ⟨7, [], []⟩) := by
    rw [readNot, outcome_parseNot]
    rfl
  have hnot : readNot loadingUse ⟨4, "!#2", []⟩ = .ok (.not 4 (.const 5 2), ⟨7, [], []⟩) := by
    rw [readNot, outcome_parseNot]
    change (readNot loadingUse ⟨5, "#2", []⟩).map _ = _
    rw [hleaf]
    rfl
  have hright : readAnd loadingUse ⟨4, "!#2", []⟩ = .ok (.not 4 (.const 5 2), ⟨7, [], []⟩) := by
    rw [readAnd_eq]
    dsimp only
    rw [hnot]
    rfl
  have hfirst : readNot loadingUse ⟨0, "=#1&!#2", []⟩ = .ok (.is 0 1, ⟨3, "&!#2", []⟩) := by
    rw [readNot, outcome_parseNot]
    rfl
  have hand : readAnd loadingUse ⟨0, "=#1&!#2", []⟩ =
      .ok (.and 3 (.is 0 1) (.not 4 (.const 5 2)), ⟨7, [], []⟩) := by
    rw [readAnd_eq]
    dsimp only
    rw [hfirst]
    change (readAnd loadingUse ⟨4, "!#2", []⟩).map _ = _
    rw [hright]
    rfl
  have hor : readOr loadingUse ⟨0, "=#1&!#2", []⟩ =
      .ok (.and 3 (.is 0 1) (.not 4 (.const 5 2)), ⟨7, [], []⟩) := by
    rw [readOr_eq]
    dsimp only
    rw [hand]
    rfl
  have hinner : readNot loadingUse ⟨1, "#1", []⟩ = .ok (.const 1 1, ⟨3, [], []⟩) := by
    rw [readNot, outcome_parseNot]
    rfl
  have hgroup : readOr loadingUse ⟨1, "#1", []⟩ = .ok (.const 1 1, ⟨3, [], []⟩) := by
    rw [readOr_eq, readAnd_eq]
    dsimp only
    rw [hinner]
    rfl
  have hopen : readOr loadingUse ⟨0, "(#1", []⟩ = .error ⟨⟨3, .missingClose⟩, []⟩ := by
    have hnot : readNot loadingUse ⟨0, "(#1", []⟩ = .error ⟨⟨3, .missingClose⟩, []⟩ := by
      rw [readNot, outcome_parseNot]
      change (readOr loadingUse ⟨1, "#1", []⟩ >>= fun p =>
        closeOutcome p.1 p.2.skipSpace p.2.skipSpace.rest) = _
      rw [hgroup]
      rfl
    rw [readOr_eq, readAnd_eq]
    dsimp only
    rw [hnot]
    rfl
  have hparse :
      parse loadingUse "=#1&!#2" = .ok (some (.and 3 (.is 0 1) (.not 4 (.const 5 2)))) :=
    parse_of_outcome rfl hor rfl
  have herror : parse loadingUse "(#1" = .error ⟨3, .missingClose⟩ := by
    have hmark : ("(#1" : Bytes) = 40 :: "#1" := rfl
    rw [hmark] at hopen ⊢
    rw [parse_cons rfl, hopen]
  exact ⟨⟨hparse, ((parse_offsets loadingUse _).2 _ hparse).1⟩, herror,
    (parse_offsets loadingUse _).1 _ herror⟩

end Key
end Locksmith
