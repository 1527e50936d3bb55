import Locksmith.Proofs.Lock.Acceptance
import Locksmith.Proofs.Machine.Leaves

namespace Locksmith
namespace Escape

variable {s back : Bytes}

theorem length_unescape_le (s : Bytes) : (unescape s).length ≤ s.length := by
  fun_induction unescape s with
  | case1 => exact Nat.le_refl _
  | case2 => exact Nat.le_refl _
  | case3 b c r hb ih => exact Nat.le_succ_of_le (Nat.succ_le_succ ih)
  | case4 b c r hb ih => exact Nat.succ_le_succ ih

/-- A backslash at the end escapes nothing and stays. -/
theorem unescape_eq_self_iff : unescape s = s ↔ backslash ∉ s.dropLast := by
  fun_induction unescape s with
  | case1 => exact ⟨fun _ => List.not_mem_nil, fun _ => rfl⟩
  | case2 b => exact ⟨fun _ => List.not_mem_nil, fun _ => rfl⟩
  | case3 b c r hb ih =>
    constructor
    · intro h
      have hlength := congrArg List.length h
      have hle := length_unescape_le r
      rw [List.length_cons, List.length_cons, List.length_cons] at hlength
      omega
    · intro h
      rw [List.dropLast_cons_cons, List.mem_cons, not_or] at h
      exact absurd (eq_of_beq hb).symm h.1
  | case4 b c r hb ih =>
    rw [List.cons.injEq, ih, List.dropLast_cons_cons, List.mem_cons, not_or]
    have hne : backslash ≠ b := fun h => hb (beq_iff_eq.2 h.symm)
    exact ⟨fun h => ⟨hne, h.2⟩, fun h => ⟨rfl, h.2⟩⟩

theorem isInfix_trim (s : Bytes) : trim s <:+: s := by
  obtain ⟨front, back, hs, -⟩ := trim_spec s
  exact ⟨front, back, by rw [List.append_assoc, ← hs]⟩

theorem trim_eq_nil_iff : trim s = [] ↔ Blank s := by
  constructor
  · intro h
    obtain ⟨front, back, hs, hfront, hback, -⟩ := trim_spec s
    rw [hs, h]
    exact Blank.append hfront hback
  · intro h
    refine padded_iff.1
      ⟨s, [], (List.append_nil s).symm, h, blank_nil, .of_forall (List.forall_mem_nil _), ?_⟩
    exact fun _ => rfl

theorem trim_append_blank (hback : Blank back) (hclosed : pending false s = true → back = []) :
    trim (s ++ back) = trim s := by
  obtain ⟨front, rest, hs, hfront, hrest, htrimmed, hopen⟩ : Padded (trim s) s :=
    padded_iff.2 rfl
  refine padded_iff.1
    ⟨front, rest ++ back, ?_, hfront, hrest.append hback, htrimmed, fun hp => ?_⟩
  · conv_lhs => rw [hs]
    simp only [List.append_assoc]
  · rw [hopen hp, hclosed (by rwa [pending_trim] at hp)]
    rfl

/-- Where no backslash escapes anything, a text is clear of what is not in it. -/
theorem Clear.forall_mem {p : UInt8 → Bool} (h : Clear p false s)
    (hs : backslash ∉ s.dropLast) : ∀ b ∈ s, p b = false := by
  induction s with
  | nil => exact List.forall_mem_nil _
  | cons b s ih =>
    refine List.forall_mem_cons.2 ⟨h.1, ?_⟩
    cases s with
    | nil => exact List.forall_mem_nil _
    | cons c s =>
      rw [List.dropLast_cons_cons, List.mem_cons, not_or] at hs
      have hrest := h.2
      rw [beq_false_of_ne (Ne.symm hs.1)] at hrest
      exact ih hrest hs.2

end Escape

namespace Key

open Escape

/-- A lock name that is read back where an indirect key is shown alone. It may end in a
backslash, since nothing follows that could be escaped. -/
structure ShownWhole (s : Bytes) : Prop where
  ne_nil : s ≠ []
  plain : ∀ b ∈ s, b ≠ 0 ∧ endsKey b = false
  unescaped : backslash ∉ s.dropLast
  first : s.head?.any isSpace = false
  last : s.getLast?.any isSpace = false

/-- A lock name that is read back: one that is shown whole, or the one that is meant where none
is given, if no more than white space is shown of it. -/
def Legible (lockType s : Bytes) : Prop :=
  ShownWhole s ∨ s ≠ [] ∧ s = lockType ∧ Blank s.upToZero

theorem shownWhole_iff {s : Bytes} :
    ShownWhole s ↔ s ≠ [] ∧ 0 ∉ s ∧ Clear endsKey false s ∧ trim s = s ∧ unescape s = s := by
  rw [unescape_eq_self_iff]
  constructor
  · intro h
    have htrimmed : Trimmed s := by
      constructor
      · rintro b r rfl
        exact h.first
      · rintro r b rfl hb
        have hlast := h.last
        rw [List.getLast?_concat] at hlast
        exact absurd (hb.symm.trans hlast) (by decide)
    exact ⟨h.ne_nil, fun hm => (h.plain 0 hm).1 rfl,
      clear_of_forall (fun b hb => (h.plain b hb).2) false, htrimmed.trim_eq, h.unescaped⟩
  · rintro ⟨hne, hzero, hclear, htrim, hplain⟩
    have htrimmed : Trimmed s := htrim ▸ trim_trimmed s
    refine ⟨hne, fun b hb => ⟨fun h0 => hzero (h0 ▸ hb), hclear.forall_mem hplain b hb⟩,
      hplain, ?_, ?_⟩
    · cases s with
      | nil => rfl
      | cons b r => exact htrimmed.head b r rfl
    · obtain ⟨r, b, rfl⟩ := (List.eq_nil_or_concat' s).resolve_left hne
      rw [List.getLast?_concat]
      cases hb : isSpace b with
      | false => exact hb
      | true =>
        -- white space at the end would have to be escaped
        have hpending := htrimmed.last r b rfl hb
        rw [List.dropLast_concat] at hplain
        rw [pending_of_not_mem hplain] at hpending
        cases hpending

end Key
namespace Grammar

open Escape Locksmith.Parser

variable {ctx : ParseContext} {last : Bool} {pos pos' : Nat} {d : Dbref}
  {s text back rest lock : Bytes}

theorem Derives.operand (h : Derives ctx .or last pos s (.indirect pos' d lock)) :
    Derives ctx .operand last pos s (.indirect pos' d lock) := by
  cases h with
  | oneOr h =>
    cases h with
    | oneAnd h => exact h

theorem eq_nil_of_blank {space t : Bytes} {b : UInt8} (hspace : Blank space)
    (hb : isSpace b = false) (h : b :: rest = space ++ t) : space = [] := by
  cases space with
  | nil => rfl
  | cons c space =>
    cases h
    rw [hspace b (List.mem_cons_self ..)] at hb
    cases hb

theorem pending_operator {space : Bytes} (hspace : Blank space) (text : Bytes) :
    pending false (64 :: (space ++ text)) = pending false text := by
  rw [pending_cons, pending_append]
  exact congrArg (pending · text) hspace.pending

theorem Leaf.exists_leads {key : Key} (h : Leaf ctx pos s key)
    (hkey : key = .indirect pos' d lock) :
    ∃ space text, s = 64 :: (space ++ text) ∧ Blank space ∧ Atom text ∧
      Leads ctx text d lock := by
  cases h with
  | key atom first spells =>
    subst hkey
    cases spells
  | indirect blank atom first leads =>
    cases hkey
    exact ⟨_, _, rfl, blank, atom, leads⟩
  | object takes blank atom first names =>
    cases takes with
    | is => cases hkey
    | carry => cases hkey
    | owner => cases hkey

theorem Derives.exists_leads (h : Derives ctx .operand last pos s (.indirect pos' d lock))
    (hs : 64 :: rest = s) :
    ∃ space text back, rest = space ++ (text ++ back) ∧ Blank space ∧ Blank back ∧ Atom text ∧
      (pending false text = true → back = []) ∧ Leads ctx text d lock := by
  cases h with
  | group blank =>
    obtain rfl := eq_nil_of_blank blank rfl hs
    cases hs
  | leaf blank leaf trailing closed =>
    obtain rfl := eq_nil_of_blank blank rfl hs
    obtain ⟨space, text, rfl, hspace, atom, leads⟩ := leaf.exists_leads rfl
    rw [pending_operator hspace] at closed
    refine ⟨space, text, _, ?_, hspace, trailing, atom, fun hp => (closed hp).1, leads⟩
    rw [← List.append_assoc]
    exact List.tail_eq_of_cons_eq hs

theorem derives_indirect (atom : Atom text) (first : text.head? ≠ some 40)
    (leads : Leads ctx text d lock) (hback : Blank back)
    (hclosed : pending false text = true → back = []) :
    Derives ctx .or true 0 (64 :: (text ++ back)) (.indirect 0 d lock) := by
  refine .oneOr (.oneAnd (.leaf blank_nil (.indirect blank_nil atom first leads) hback
    fun hp => ?_))
  rw [pending_operator blank_nil] at hp
  exact ⟨hclosed hp, rfl⟩

end Grammar

namespace Parser

open Escape Grammar

variable {ctx : ParseContext} {d d' : Dbref} {s t lock : Bytes} {pos : Nat}

theorem Denotes.firstOf (h : Denotes ctx s d) (t : Bytes) :
    FirstOf (· == 47) (s ++ 47 :: t) s 47 t := by
  refine ⟨rfl, clear_of_forall (fun b hb => ?_) false, h.closed, rfl⟩
  refine beq_false_of_ne ?_
  rintro rfl
  cases (h.plain 47 hb).2.1

theorem Denotes.means (h : Denotes ctx s d) : Means ctx s d :=
  resolve_iff.1 (h.found ⟨0, [], []⟩)

theorem Denotes.padded (h : Denotes ctx s d) : Padded s s := padded_iff.2 h.trimmed.trim_eq

theorem exists_behind {s t text back : Bytes} {b : UInt8} (h : s ++ b :: t = text ++ back)
    (hback : Blank back) (hb : isSpace b = false) :
    ∃ t', text = s ++ b :: t' ∧ t = t' ++ back := by
  have hmem : b ∉ back := by
    intro hm
    rw [hback b hm] at hb
    cases hb
  rcases List.append_eq_append_iff.1 h with ⟨between, rfl, hbt⟩ | ⟨between, -, rfl⟩
  · cases between with
    | nil =>
      rw [List.nil_append] at hbt
      exact absurd (hbt ▸ List.mem_cons_self ..) hmem
    | cons c between =>
      cases hbt
      exact ⟨between, rfl, rfl⟩
  · exact absurd (List.mem_append_right _ (List.mem_cons_self ..)) hmem

theorem Denotes.pending_slash (h : Denotes ctx s d) (t : Bytes) :
    pending false (s ++ 47 :: t) = pending false t := by
  rw [pending_append, h.closed]
  rfl

theorem Denotes.clear_slash (h : Denotes ctx s d) :
    Clear endsKey false (s ++ 47 :: t) ↔ Clear endsKey false t := by
  rw [clear_append, h.closed]
  exact ⟨fun hclear => hclear.2.2, fun hclear => ⟨h.clear, rfl, hclear⟩⟩

theorem Denotes.lock_of_leads (h : Denotes ctx s d)
    (hleads : Leads ctx (s ++ 47 :: t) d' lock) :
    lock ≠ [] ∧ (lock = unescape (trim t) ∨ trim t = [] ∧ lock = ctx.lockType) := by
  have hcut := (cut_eq_some_iff slash_backslash).2 (h.firstOf t)
  cases hleads with
  | named hfirst hobject hname hne hd =>
    rw [(cut_eq_some_iff slash_backslash).2 hfirst] at hcut
    cases hcut
    rw [padded_iff.1 hname]
    exact ⟨mt unescape_eq_nil.1 hne, .inl rfl⟩
  | unnamed hfirst hobject hname hne hd =>
    rw [(cut_eq_some_iff slash_backslash).2 hfirst] at hcut
    cases hcut
    exact ⟨hne, .inr ⟨padded_iff.1 hname, rfl⟩⟩
  | alone hclear hobject hne hd =>
    rw [cut_eq_none slash_backslash hclear] at hcut
    cases hcut

theorem Denotes.lock_of_parse (h : Denotes ctx s d)
    (hparse : Key.parse ctx (64 :: (s ++ 47 :: t)) = .ok (some (.indirect pos d' lock))) :
    Clear endsKey false t ∧ lock ≠ [] ∧
    (lock = unescape (trim t) ∨ trim t = [] ∧ lock = ctx.lockType) := by
  obtain ⟨space, text, back, hrest, hspace, hback, atom, hclosed, hleads⟩ :=
    (parse_eq_some_iff.1 hparse).operand.exists_leads rfl
  obtain ⟨b, r, hs, -⟩ := h.first
  have hhead : isSpace b = false := (h.plain b (hs ▸ List.mem_cons_self ..)).2.2.1
  obtain rfl : space = [] := by
    rw [hs, List.cons_append] at hrest
    exact eq_nil_of_blank hspace hhead hrest
  rw [List.nil_append] at hrest
  obtain ⟨t, rfl, rfl⟩ := exists_behind hrest hback rfl
  rw [h.pending_slash] at hclosed
  refine ⟨clear_append.2 ⟨h.clear_slash.1 atom.clear, ?_⟩, ?_⟩
  · cases hp : pending false t with
    | false => exact hback.clear
    | true =>
      rw [hclosed hp]
      trivial
  · rw [trim_append_blank hback hclosed]
    exact h.lock_of_leads hleads

theorem Denotes.parse_of_leads {back : Bytes} (h : Denotes ctx s d)
    (hleads : Leads ctx (s ++ 47 :: t) d lock)
    (hclear : Clear endsKey false t) (htrimmed : Trimmed t) (hback : Blank back)
    (hclosed : pending false t = true → back = []) :
    Key.parse ctx (64 :: (s ++ 47 :: (t ++ back))) = .ok (some (.indirect 0 d lock)) := by
  obtain ⟨b, r, hs, hb⟩ := h.head
  have hatom : Atom (s ++ 47 :: t) := by
    refine ⟨?_, h.trimmed.append rfl h.closed (by decide) htrimmed, h.clear_slash.2 hclear⟩
    rw [hs]
    exact List.cons_ne_nil _ _
  have hfirst : (s ++ 47 :: t).head? ≠ some 40 := by
    rw [hs]
    exact fun h40 => hb (Option.some.inj h40)
  have hderives := derives_indirect hatom hfirst hleads hback (by rwa [h.pending_slash])
  rw [List.append_assoc] at hderives
  exact parse_eq_some_iff.2 hderives

/-- A text behind the slash with no white space around it is read as the name of a lock. -/
theorem Denotes.parse_named (h : Denotes ctx s d) (hne : t ≠ [])
    (hclear : Clear endsKey false t) (htrim : trim t = t) :
    Key.parse ctx (64 :: (s ++ 47 :: t)) = .ok (some (.indirect 0 d (unescape t))) := by
  have hleads : Leads ctx (s ++ 47 :: t) d (unescape t) :=
    .named (h.firstOf t) h.padded (padded_iff.2 htrim) hne h.means
  have hparse := h.parse_of_leads hleads hclear (htrim ▸ trim_trimmed t) blank_nil fun _ => rfl
  rwa [List.append_nil] at hparse

/-- White space behind the slash names no lock. -/
theorem Denotes.parse_unnamed (h : Denotes ctx s d) (hne : ctx.lockType ≠ []) (ht : Blank t) :
    Key.parse ctx (64 :: (s ++ 47 :: t)) = .ok (some (.indirect 0 d ctx.lockType)) := by
  have hleads : Leads ctx (s ++ 47 :: []) d ctx.lockType :=
    .unnamed (h.firstOf []) h.padded (padded_iff.2 rfl) hne h.means
  exact h.parse_of_leads hleads trivial (.of_forall (List.forall_mem_nil _)) ht fun hp =>
    Bool.noConfusion hp

/-- A lock name that was shown, up to its first zero byte, is read back just if it is legible.
-/
theorem Denotes.parse_shown_iff (h : Denotes ctx s d) :
    (∃ pos, Key.parse ctx (64 :: (s ++ 47 :: lock.upToZero)) =
      .ok (some (.indirect pos d lock))) ↔
      Key.Legible ctx.lockType lock := by
  constructor
  · rintro ⟨pos, hparse⟩
    obtain ⟨hclear, hne, hlock | ⟨hblank, hlock⟩⟩ := h.lock_of_parse hparse
    · -- nothing can have been dropped, or the name would be longer than what was read of it
      have hunescape := length_unescape_le (trim lock.upToZero)
      have htrim := (isInfix_trim lock.upToZero).length_le
      have hprefix := lock.isPrefix_upToZero
      have hzero := hprefix.length_le
      rw [← hlock] at hunescape
      have hwhole : lock.upToZero = lock := hprefix.eq_of_length (by omega)
      have htrimmed : trim lock.upToZero = lock.upToZero :=
        (isInfix_trim _).eq_of_length (by omega)
      rw [htrimmed, hwhole] at hlock
      rw [hwhole] at hclear htrimmed
      exact .inl (Key.shownWhole_iff.2
        ⟨hne, Bytes.upToZero_eq_self.1 hwhole, hclear, htrimmed, hlock.symm⟩)
    · exact .inr ⟨hne, hlock, trim_eq_nil_iff.1 hblank⟩
  · rintro (hwhole | ⟨hne, hlock, hblank⟩)
    · obtain ⟨hne, hzero, hclear, htrim, hunescape⟩ := Key.shownWhole_iff.1 hwhole
      have hparse := h.parse_named hne hclear htrim
      rw [hunescape] at hparse
      rw [Bytes.upToZero_eq_self.2 hzero]
      exact ⟨0, hparse⟩
    · rw [hlock] at hne hblank ⊢
      exact ⟨0, h.parse_unnamed hne hblank⟩

end Parser

theorem Dbref.fitsOperand_operandObject (arg : Int32) :
    (Machine.operandObject arg).fitsOperand = true := by
  have hlow := arg.le_toInt
  have hhigh := arg.toInt_lt
  simp only [fitsOperand, Machine.operandObject, Int32.toInt_toInt64, Bool.and_eq_true,
    decide_eq_true_eq]
  omega

namespace Lock.Compiler

/-- What is shown of an indirect key, and what is read of that. In the code of a text that loads
an indirect key is shown with its object and with its lock name up to the first zero byte. That
text alone is read as a key with the same object and lock name just if the name is legible. -/
theorem indirect_shown_iff_legible (c : Compiler) {source lockType : Bytes} {key : Key}
    {lock : LockCode} (hparse : Key.parse (c.loadContext lockType) source = .ok (some key))
    (hlock : c.compileLoad source lockType = .ok lock) (hsize : lock.size < 2 ^ 31) :
    ∃ code insns pieces, lock = some code ∧ Bytecode.instructions code = .ok insns ∧
      insns.filter (·.ofLeaf) = pieces.flatten ∧
      List.Forall₂ (fun leaf piece => ∀ pos d name, leaf = .indirect pos d name →
        (∀ viewer names, Decompile.ShowsUnit ⟨viewer, .dbrefs, names⟩ code piece
          (64 :: (d.render ++ 47 :: name.upToZero))) ∧
        ((∃ pos', Key.parse (c.loadContext lockType) (64 :: (d.render ++ 47 :: name.upToZero)) =
          .ok (some (.indirect pos' d name))) ↔ Key.Legible lockType name))
        key.leaves pieces := by
  obtain ⟨key', hparse', hkey⟩ := compileLoad_eq_ok hlock
  obtain rfl : some key = key' := Except.ok.inj (hparse.symm.trans hparse')
  obtain ⟨code, insns, pool, pieces, rfl, hcode, hpieces, hleaves⟩ := exists_leaves hkey hsize
  refine ⟨code, insns, pieces, rfl, hcode.read, hpieces,
    (List.forall₂_map_left_iff.1 hleaves).imp ?_⟩
  rintro leaf piece hstands pos d name rfl
  cases hstands with
  | indirect pos arg htext =>
    refine ⟨fun viewer names => ?_,
      (Parser.denotes_number rfl (Dbref.fitsOperand_operandObject arg)).parse_shown_iff⟩
    refine .textTest rfl htext ?_
    rw [Decompile.renderTest]
    change some ([64] ++ Decompile.Style.object _ _ ++ [47] ++ name.upToZero) = _
    rw [List.append_assoc]
    cases names <;> rfl

/-- The text `@#1/a\&b`. -/
def escapedName : Bytes := [64, 35, 49, 47, 97, 92, 38, 98]

/-- The code of that text. -/
def escapedNameCode : Bytes := [3, 15, 0, 0, 0, 12, 1, 0, 0, 0, 0, 0, 0, 0, 0, 97, 38, 98, 0]

theorem parse_escapedName (lockType : Bytes) :
    Key.parse (standard.loadContext lockType) escapedName =
      .ok (some (.indirect 0 1 [97, 38, 98])) := by
  have hread : Parser.readOr (standard.loadContext lockType) ⟨0, escapedName, []⟩ =
      .ok (.indirect 0 1 [97, 38, 98], ⟨8, [], []⟩) := by
    rw [Parser.readOr, Parser.outcome_parseOr, Parser.outcome_parseAnd, Parser.outcome_parseNot]
    rfl
  exact Parser.parse_of_outcome rfl hread rfl

theorem compileLoad_escapedName (lockType : Bytes) :
    standard.compileLoad escapedName lockType = .ok (some escapedNameCode) :=
  standard.compileLoad_eq (parse_escapedName lockType) rfl

theorem shown_escapedName :
    64 :: (Dbref.render 1 ++ 47 :: Bytes.upToZero [97, 38, 98]) =
      [64, 35, 49, 47, 97, 38, 98] := by
  cbv

/-- `@#1/a\&b` is shown as `@#1/a&b`, which is not read as a key with that lock name. -/
theorem escaped_name_lost :
    0 ∉ escapedName ∧
    Key.parse (standard.loadContext []) escapedName = .ok (some (.indirect 0 1 [97, 38, 98])) ∧
    standard.compileLoad escapedName [] = .ok (some escapedNameCode) ∧
    LockCode.decompile (some escapedNameCode) 0 .dbrefs none = [64, 35, 49, 47, 97, 38, 98] ∧
    ¬∃ pos, Key.parse (standard.loadContext []) [64, 35, 49, 47, 97, 38, 98] =
      .ok (some (.indirect pos 1 [97, 38, 98])) := by
  refine ⟨by decide, parse_escapedName [], compileLoad_escapedName [], by cbv, ?_⟩
  rintro ⟨pos, hparse⟩
  have hdenotes : Parser.Denotes (standard.loadContext []) (Dbref.render 1) 1 :=
    Parser.denotes_number rfl rfl
  rw [← shown_escapedName] at hparse
  obtain ⟨⟨-, hends, -⟩, -⟩ := hdenotes.lock_of_parse hparse
  cases hends

theorem indirect_shown_iff_legible_escapedName :
    standard.compileLoad escapedName [] = .ok (some escapedNameCode) ∧
    LockCode.size (some escapedNameCode) < 2 ^ 31 ∧
      ∃ insns piece, Bytecode.instructions escapedNameCode = .ok insns ∧
        insns.filter (·.ofLeaf) = piece ∧
        (∀ viewer names, Decompile.ShowsUnit ⟨viewer, .dbrefs, names⟩ escapedNameCode piece
          [64, 35, 49, 47, 97, 38, 98]) ∧
        ((∃ pos, Key.parse (standard.loadContext []) [64, 35, 49, 47, 97, 38, 98] =
          .ok (some (.indirect pos 1 [97, 38, 98]))) ↔ Key.Legible [] [97, 38, 98]) := by
  have hsize : LockCode.size (some escapedNameCode) < 2 ^ 31 := by decide
  obtain ⟨code, insns, pieces, hcode, hinsns, hpieces, hleaves⟩ :=
    standard.indirect_shown_iff_legible (parse_escapedName [])
      (compileLoad_escapedName []) hsize
  cases hcode
  cases hleaves with
  | cons hleaf hrest =>
    cases hrest
    rw [List.flatten_cons, List.flatten_nil, List.append_nil] at hpieces
    have hshown := hleaf 0 1 [97, 38, 98] rfl
    rw [shown_escapedName] at hshown
    exact ⟨compileLoad_escapedName [], hsize, insns, _, hinsns, hpieces, hshown⟩

end Lock.Compiler
end Locksmith
