import Locksmith.Proofs.Lock.ReadBack

namespace Locksmith
namespace Escape

/-- A byte of a text, and whether it is escaped. -/
structure Marked where
  byte : UInt8
  escaped : Bool
deriving DecidableEq

/-- A byte that satisfies `p` and is not escaped. -/
def Marked.bare (p : UInt8 → Bool) (m : Marked) : Bool := p m.byte && !m.escaped

/-- The bytes of a text, marked from left to right. At a backslash that is not escaped two bytes
are taken at once, and the second of them is escaped. -/
def scan : Bytes → List Marked
  | [] => []
  | [b] => [⟨b, false⟩]
  | b :: c :: r =>
    if b == backslash then ⟨b, false⟩ :: ⟨c, true⟩ :: scan r else ⟨b, false⟩ :: scan (c :: r)

theorem map_byte_scan (s : Bytes) : (scan s).map Marked.byte = s := by
  fun_induction scan s <;> simp_all

@[simp] theorem length_scan (s : Bytes) : (scan s).length = s.length := by
  rw [← List.length_map Marked.byte, map_byte_scan]

theorem scan_cons {b : UInt8} (hb : (b == backslash) = false) (s : Bytes) :
    scan (b :: s) = ⟨b, false⟩ :: scan s := by
  rcases s with _ | ⟨c, r⟩
  · rfl
  · rw [scan, hb, if_neg Bool.false_ne_true]

/-- The scan in pairs and the two states of `pending` mark alike. -/
theorem scan_concat (s : Bytes) (b : UInt8) :
    scan (s ++ [b]) = scan s ++ [⟨b, pending false s⟩] := by
  -- The scan takes bytes in pairs, so its own induction is needed; one on the list ends within
  -- a pair.
  fun_induction scan s with
  | case1 => rfl
  | case2 a =>
    rcases ha : a == backslash with _ | _
    · simp [scan, pending, ha]
    · simp [scan, pending, ha]
  | case3 a c r ha ih =>
    rw [pending_cons, pending_cons, ha]
    simp [scan, ha, ih]
  | case4 a c r ha ih =>
    rw [Bool.not_eq_true] at ha
    rw [List.cons_append, scan_cons ha, ih, pending_cons false a, ha]
    rfl

theorem pending_iff_getLast? (s : Bytes) :
    pending false s = true ↔ (scan s).getLast? = some ⟨backslash, false⟩ := by
  rcases List.eq_nil_or_concat' s with rfl | ⟨r, b, rfl⟩
  · simp [pending, scan]
  · simp [scan_concat, pending_concat, and_comm]

theorem clear_iff_scan {p : UInt8 → Bool} (s : Bytes) :
    Clear p false s ↔ ∀ m ∈ scan s, m.bare p = false := by
  induction s using List.reverseRecOn with
  | nil => simp [Clear, scan]
  | append_singleton s b ih =>
    have hlast :
        Clear p (pending false s) [b] ↔ Marked.bare p ⟨b, pending false s⟩ = false := by
      cases pending false s <;> simp [Clear, Marked.bare]
    rw [clear_append, ih, hlast, scan_concat, List.forall_mem_append, List.forall_mem_singleton]

theorem exists_scan_cons (b : UInt8) (s : Bytes) :
    ∃ rest, scan (b :: s) = ⟨b, false⟩ :: rest := by
  rcases s with _ | ⟨c, r⟩
  · exact ⟨[], rfl⟩
  · unfold scan
    split
    · exact ⟨_, rfl⟩
    · exact ⟨_, rfl⟩

theorem scan_dropWhile (s : Bytes) :
    scan (s.dropWhile isSpace) = (scan s).dropWhile fun m => isSpace m.byte := by
  induction s with
  | nil => rfl
  | cons b s ih =>
    rcases hb : isSpace b with _ | _
    · obtain ⟨rest, hscan⟩ := exists_scan_cons b s
      rw [List.dropWhile_cons, hb, if_neg Bool.false_ne_true, hscan, List.dropWhile_cons, hb,
        if_neg Bool.false_ne_true]
    · rw [List.dropWhile_cons_of_pos hb, ih, scan_cons (isSpace_ne_backslash hb),
        List.dropWhile_cons, hb, if_pos rfl]

/-- Counting backslashes backwards finds the white space that the scan has not marked. -/
theorem scan_dropSpaces (r : Bytes) :
    scan (dropSpaces r).reverse = (scan r.reverse).rdropWhile (Marked.bare isSpace) := by
  induction r with
  | nil => rfl
  | cons b r ih =>
    rw [dropSpaces_cons, List.reverse_cons, scan_concat, List.rdropWhile_concat, Marked.bare]
    split
    · exact ih
    · rw [List.reverse_cons, scan_concat]

theorem scan_trim (s : Bytes) :
    scan (trim s) =
      ((scan s).dropWhile fun m => isSpace m.byte).rdropWhile (Marked.bare isSpace) := by
  rw [trim, scan_dropSpaces, List.reverse_reverse, scan_dropWhile]

/-- What a text may be cut at: a byte that satisfies `p` and is neither a backslash nor escaped.
-/
def Marked.cuts (p : UInt8 → Bool) : Marked → Bool := Marked.bare fun b => b != backslash && p b

theorem cuts_unescaped (p : UInt8 → Bool) (b : UInt8) :
    Marked.cuts p ⟨b, false⟩ = (b != backslash && p b) := Bool.and_true _

theorem cuts_escaped (p : UInt8 → Bool) (b : UInt8) : Marked.cuts p ⟨b, true⟩ = false :=
  Bool.and_false _

/-- A text is split where the scan first finds a byte to cut at. -/
theorem span_eq_splitAt (p : UInt8 → Bool) (s : Bytes) :
    span p s = s.splitAt ((scan s).findIdx (Marked.cuts p)) := by
  fun_induction span p s with
  | case1 => rfl
  | case2 b h =>
    rw [scan, List.findIdx_cons, cuts_unescaped, h]
    rfl
  | case3 b h =>
    rw [scan, List.findIdx_cons, cuts_unescaped, Bool.eq_false_iff.2 h]
    rfl
  | case4 b c r h s' t' hspan ih =>
    rw [hspan, List.splitAt_eq, Prod.mk.injEq] at ih
    rw [scan, if_pos h, List.findIdx_cons, cuts_unescaped, bne, h, Bool.not_true,
      Bool.false_and, cond_false, List.findIdx_cons, cuts_escaped, cond_false, List.splitAt_eq,
      List.take_succ_cons,
      List.take_succ_cons, List.drop_succ_cons, List.drop_succ_cons, ← ih.1, ← ih.2]
  | case5 b c r h hb =>
    rw [Bool.not_eq_true] at h
    rw [scan_cons h, List.findIdx_cons, cuts_unescaped, bne, h, hb]
    rfl
  | case6 b c r h hb s' t' hspan ih =>
    rw [Bool.not_eq_true] at h hb
    rw [hspan, List.splitAt_eq, Prod.mk.injEq] at ih
    rw [scan_cons h, List.findIdx_cons, cuts_unescaped, hb, Bool.and_false, cond_false,
      List.splitAt_eq, List.take_succ_cons, List.drop_succ_cons, ← ih.1, ← ih.2]

theorem length_cut (p : UInt8 → Bool) (s : Bytes) :
    (cut p s).map (fun parts => parts.1.length) = (scan s).findIdx? (Marked.cuts p) := by
  have hle : (scan s).findIdx (Marked.cuts p) ≤ s.length := by
    rw [← length_scan]
    exact List.findIdx_le_length
  rw [cut, span_eq_splitAt, List.splitAt_eq]
  split
  · rename_i hsplit
    have hdrop := List.drop_eq_nil_iff.1 (Prod.mk.inj hsplit).2
    symm
    rw [Option.map_none, List.findIdx?_eq_none_iff_findIdx_eq, length_scan]
    omega
  · rename_i before b after hsplit
    obtain ⟨hbefore, hafter⟩ := Prod.mk.inj hsplit
    have hlt : (scan s).findIdx (Marked.cuts p) < s.length := by
      refine lt_of_le_of_ne hle fun heq => ?_
      rw [heq, List.drop_length] at hafter
      cases hafter
    symm
    rw [Option.map_some, List.findIdx?_eq_some_iff_findIdx_eq, length_scan, ← hbefore,
      List.length_take, min_eq_left hle]
    exact ⟨hlt, rfl⟩

theorem cut_append {p : UInt8 → Bool} {s before after : Bytes} {b : UInt8}
    (h : cut p s = some (before, b, after)) : s = before ++ b :: after := by
  have happ := Parser.span_append p s
  rw [span_of_cut h] at happ
  exact happ.symm

/-- A key that was read is read again before any byte that ends a key, just if that byte is not
escaped. -/
theorem scanKey_again (c : Parser.Cursor) {d : UInt8} (hd : endsKey d = true) (pos : Nat)
    (more : Bytes) (asked : List Bytes) :
    Parser.Cursor.scanKey ⟨pos, c.scanKey.1 ++ d :: more, asked⟩ =
        (c.scanKey.1, ⟨pos + c.scanKey.1.length, d :: more, asked⟩) ↔
      pending false c.scanKey.1 = false := by
  have hscan := Parser.scanKey_scanned c
  constructor
  · intro h
    have happ := Parser.span_append endsKey (c.scanKey.1 ++ d :: more)
    have hrest : (span endsKey (c.scanKey.1 ++ d :: more)).2 = d :: more :=
      congrArg (fun read => read.2.rest) h
    rw [hrest] at happ
    obtain ⟨-, hnil | ⟨hpend, -⟩⟩ :=
      span_spec Parser.endsKey_backslash (c.scanKey.1 ++ d :: more)
    · rw [hrest] at hnil
      cases hnil
    · rwa [List.append_cancel_right happ] at hpend
  · intro h
    exact Parser.scanKey_append hscan.clear hscan.trimmed (.inr ⟨h, d, more, rfl, hd⟩) pos asked

/-- Trimming, cutting and the reading of keys find the same bytes escaped as one scan from left
to right. What is trimmed is all white space in front and all unescaped white space behind it,
and the bytes that stay keep their marks. A text is cut at the first byte sought that is neither
a backslash nor escaped. And a key holds no unescaped byte that ends keys, so that it is read
again before any of these, unless a backslash at its end escapes that one. -/
theorem scanners_agree :
    (∀ s : Bytes, scan (trim s) =
        ((scan s).dropWhile fun m => isSpace m.byte).rdropWhile (Marked.bare isSpace)) ∧
    (∀ s : Bytes, trim (trim s) = trim s) ∧
    (∀ (p : UInt8 → Bool) (s : Bytes),
      (cut p s).map (fun parts => parts.1.length) = (scan s).findIdx? (Marked.cuts p) ∧
        ∀ (before after : Bytes) (b : UInt8),
          cut p s = some (before, b, after) → s = before ++ b :: after) ∧
    ∀ c : Parser.Cursor,
      (∀ m ∈ scan c.scanKey.1, m.bare endsKey = false) ∧
        ∀ d : UInt8, endsKey d = true → ∀ (pos : Nat) (more : Bytes) (asked : List Bytes),
          (Parser.Cursor.scanKey ⟨pos, c.scanKey.1 ++ d :: more, asked⟩ =
              (c.scanKey.1, ⟨pos + c.scanKey.1.length, d :: more, asked⟩) ↔
            (scan c.scanKey.1).getLast? ≠ some ⟨backslash, false⟩) := by
  refine ⟨scan_trim, fun s => (trim_trimmed s).trim_eq, fun p s => ⟨length_cut p s, ?_⟩,
    fun c => ⟨?_, ?_⟩⟩
  · intro before after b h
    exact cut_append h
  · exact (clear_iff_scan _).1 (Parser.scanKey_scanned c).clear
  · intro d hd pos more asked
    rw [scanKey_again c hd, Ne, ← pending_iff_getLast?, Bool.not_eq_true]

/-- Of three backslashes the last one escapes the space behind them, and the tab is dropped. -/
theorem scanners_agree_backslashes :
    endsKey 38 = true ∧
      Parser.Cursor.scanKey
          ⟨7, (Parser.Cursor.scanKey ⟨0, [32, 97, 92, 92, 92, 32, 9, 124, 98], []⟩).1 ++
            [38, 99], []⟩ =
        ([97, 92, 92, 92, 32], ⟨12, [38, 99], []⟩) :=
  ⟨rfl, ((scanners_agree.2.2.2 ⟨0, [32, 97, 92, 92, 92, 32, 9, 124, 98], []⟩).2 38 rfl 7 [99]
    []).2 (by decide)⟩

end Escape
end Locksmith
