import Locksmith.Proofs.Lock.Reading

namespace Locksmith

namespace Key

theorem isOr_erase (key : Key) : key.erase.isOr = key.isOr := by cases key <;> rfl

theorem isAnd_erase (key : Key) : key.erase.isAnd = key.isAnd := by cases key <;> rfl

theorem isAnd_joinAnd (left right : Key) : (joinAnd left right).isAnd = true := by
  cases left <;> rfl

theorem isOr_joinOr (left right : Key) : (joinOr left right).isOr = true := by
  cases left <;> rfl

theorem isOr_joinAnd (left right : Key) : (joinAnd left right).isOr = false := by
  cases left <;> rfl

theorem isAnd_joinOr (left right : Key) : (joinOr left right).isAnd = false := by
  cases left <;> rfl

theorem isOr_reassoc (key : Key) : key.reassoc.isOr = key.isOr := by
  cases key with
  | and => exact isOr_joinAnd _ _
  | or => exact isOr_joinOr _ _
  | _ => rfl

theorem isAnd_reassoc (key : Key) : key.reassoc.isAnd = key.isAnd := by
  cases key with
  | and => exact isAnd_joinAnd _ _
  | or => exact isAnd_joinOr _ _
  | _ => rfl

theorem joinAnd_of_isAnd {left : Key} (h : left.isAnd = false) (right : Key) :
    joinAnd left right = .and 0 left right := by
  cases left with
  | and => cases h
  | _ => rfl

theorem joinOr_of_isOr {left : Key} (h : left.isOr = false) (right : Key) :
    joinOr left right = .or 0 left right := by
  cases left with
  | or => cases h
  | _ => rfl

theorem joinAnd_assoc (a b c : Key) : joinAnd (joinAnd a b) c = joinAnd a (joinAnd b c) := by
  induction a with
  | and pos left right ihl ihr => exact congrArg (Key.and pos left) ihr
  | _ => rfl

theorem joinOr_assoc (a b c : Key) : joinOr (joinOr a b) c = joinOr a (joinOr b c) := by
  induction a with
  | or pos left right ihl ihr => exact congrArg (Key.or pos left) ihr
  | _ => rfl

end Key

namespace Parser

open Escape

variable {ctx : ParseContext}

/-- Wherever the text stands, the reader makes of it this key, and leaves this rest. -/
def Reads (parse : Cursor → Except Failure (Key × Cursor)) (s : Bytes) (key : Key)
    (rest : Bytes) : Prop :=
  ∀ pos asked, ∃ key' next, parse ⟨pos, s, asked⟩ = .ok (key', next) ∧ key'.erase = key ∧
    next.rest = rest

/-- What may follow the text of a key. -/
def Follows (last : Bool) (rest : Bytes) : Prop :=
  rest = [] ∨ last = false ∧ ∃ b r, rest = b :: r ∧ endsKey b = true

theorem Follows.head {last : Bool} {rest : Bytes} (h : Follows last rest) {b : UInt8}
    {r : Bytes} (hr : rest = b :: r) : isSpace b = false := by
  obtain hnil | ⟨-, b', r', hr', hb⟩ := h
  · rw [hnil] at hr
    cases hr
  · rw [hr'] at hr
    cases hr
    exact isSpace_of_endsKey hb

theorem Follows.ends {last : Bool} {s rest : Bytes} (h : Follows last rest)
    (hs : last = false → pending false s = false) : Ends s rest :=
  h.imp_right fun ⟨hlast, hb⟩ => ⟨hs hlast, hb⟩

section Proceed

variable {operator : UInt8} {make : Nat → Key → Key → Key} {s t rest : Bytes} {left right : Key}
  {first others : Cursor → Except Failure (Key × Cursor)}

theorem Reads.more (hfirst : Reads first s left (operator :: t))
    (hothers : Reads others t right rest) (hspace : isSpace operator = false)
    (hmake : ∀ pos a b, (make pos a b).erase = make 0 a.erase b.erase) :
    Reads (fun c => first c >>= fun p => proceed operator make others p.1 p.2) s
      (make 0 left right) rest := by
  intro pos asked
  obtain ⟨a, mid, hp, rfl, hmid⟩ := hfirst pos asked
  have hskip : mid.skipSpace = mid := skipSpace_of_head fun b r hr => by
    rw [hmid] at hr
    cases hr
    exact hspace
  obtain ⟨b, next, hq, rfl, hnext⟩ := hothers (mid.pos + 1) mid.asked
  refine ⟨make mid.pos a b, next, ?_, hmake _ _ _, hnext⟩
  dsimp only
  rw [hp]
  change proceed operator make others a mid = _
  rw [proceed_hit (by rw [hskip]; exact hmid), hskip, hq]
  rfl

theorem Reads.done (hfirst : Reads first s left rest)
    (hspace : ∀ b r, rest = b :: r → isSpace b = false) (hrest : ∀ r, rest ≠ operator :: r) :
    Reads (fun c => first c >>= fun p => proceed operator make others p.1 p.2) s left rest := by
  intro pos asked
  obtain ⟨a, mid, hp, rfl, rfl⟩ := hfirst pos asked
  have hskip : mid.skipSpace = mid := skipSpace_of_head hspace
  refine ⟨a, mid, ?_, rfl, rfl⟩
  dsimp only
  rw [hp]
  change proceed operator make others a mid = _
  rw [proceed_miss (by rw [hskip]; exact hrest), hskip]

end Proceed

/-- Reads one operand of `&` and `|`. -/
abbrev readNot (ctx : ParseContext) (c : Cursor) : Except Failure (Key × Cursor) :=
  outcome (parseNot ctx c)

/-- Reads keys joined by `&`. -/
abbrev readAnd (ctx : ParseContext) (c : Cursor) : Except Failure (Key × Cursor) :=
  outcome (parseAnd ctx c)

/-- Reads keys joined by `|`. -/
abbrev readOr (ctx : ParseContext) (c : Cursor) : Except Failure (Key × Cursor) :=
  outcome (parseOr ctx c)

/-- The text is read as one operand. -/
def ReadsUnit (ctx : ParseContext) (last : Bool) (s : Bytes) (key : Key) : Prop :=
  ∀ rest, Follows last rest → Reads (readNot ctx) (s ++ rest) key rest

/-- The text is read as keys joined by `&`, alone or before more of them. -/
structure ReadsAnd (ctx : ParseContext) (last : Bool) (s : Bytes) (key : Key) : Prop where
  alone : ∀ rest, Follows last rest → (∀ r, rest ≠ 38 :: r) →
    Reads (readAnd ctx) (s ++ rest) key rest
  before : last = false → ∀ t right rest, Reads (readAnd ctx) t right rest →
    Reads (readAnd ctx) (s ++ 38 :: t) (key.joinAnd right) rest

/-- The text is read as keys joined by `|`, alone or before more of them. -/
structure ReadsOr (ctx : ParseContext) (last : Bool) (s : Bytes) (key : Key) : Prop where
  alone : ∀ rest, Follows last rest → (∀ r, rest ≠ 38 :: r) → (∀ r, rest ≠ 124 :: r) →
    Reads (readOr ctx) (s ++ rest) key rest
  before : last = false → ∀ t right rest, Reads (readOr ctx) t right rest →
    Reads (readOr ctx) (s ++ 124 :: t) (key.joinOr right) rest

theorem readAnd_eq : readAnd ctx = fun c => readNot ctx c >>= fun p =>
    proceed 38 .and (readAnd ctx) p.1 p.2 := funext outcome_parseAnd

theorem readOr_eq : readOr ctx = fun c => readAnd ctx c >>= fun p =>
    proceed 124 .or (readOr ctx) p.1 p.2 := funext outcome_parseOr

variable {last : Bool} {s t : Bytes} {key left right : Key}

theorem ReadsUnit.readsAnd (h : ReadsUnit ctx last s key) (hkey : key.isAnd = false) :
    ReadsAnd ctx last s key := by
  constructor
  · intro rest hrest hne
    rw [readAnd_eq]
    exact (h rest hrest).done (fun _ _ => hrest.head) hne
  · rintro rfl t right rest hr
    rw [readAnd_eq, Key.joinAnd_of_isAnd hkey]
    exact (h _ (.inr ⟨rfl, 38, t, rfl, rfl⟩)).more hr rfl fun _ _ _ => rfl

theorem ReadsAnd.readsOr (h : ReadsAnd ctx last s key) (hkey : key.isOr = false) :
    ReadsOr ctx last s key := by
  constructor
  · intro rest hrest hne hne'
    rw [readOr_eq]
    exact (h.alone rest hrest hne).done (fun _ _ => hrest.head) hne'
  · rintro rfl t right rest hr
    rw [readOr_eq, Key.joinOr_of_isOr hkey]
    exact (h.alone _ (.inr ⟨rfl, 124, t, rfl, rfl⟩) nofun).more hr rfl fun _ _ _ => rfl

theorem ReadsAnd.join (hl : ReadsAnd ctx false s left) (hr : ReadsAnd ctx last t right) :
    ReadsAnd ctx last (s ++ 38 :: t) (left.joinAnd right) := by
  constructor
  · intro rest hrest hne
    rw [List.append_assoc]
    exact hl.before rfl _ _ _ (hr.alone rest hrest hne)
  · intro hlast u key rest hu
    rw [List.append_assoc, Key.joinAnd_assoc]
    exact hl.before rfl _ _ _ (hr.before hlast _ _ _ hu)

theorem ReadsOr.join (hl : ReadsOr ctx false s left) (hr : ReadsOr ctx last t right) :
    ReadsOr ctx last (s ++ 124 :: t) (left.joinOr right) := by
  constructor
  · intro rest hrest hne hne'
    rw [List.append_assoc]
    exact hl.before rfl _ _ _ (hr.alone rest hrest hne hne')
  · intro hlast u key rest hu
    rw [List.append_assoc, Key.joinOr_assoc]
    exact hl.before rfl _ _ _ (hr.before hlast _ _ _ hu)

theorem readNot_of_head {c : Cursor} {b : UInt8} {r : Bytes} (h : c.rest = b :: r)
    (hb : isSpace b = false) : readNot ctx c = notOutcome ctx c (b :: r) := by
  have hskip : c.skipSpace = c := skipSpace_of_head fun b' r' h' => by
    rw [h] at h'
    cases h'
    exact hb
  rw [readNot, outcome_parseNot, hskip, h]

theorem ReadsUnit.not (h : ReadsUnit ctx last s key) :
    ReadsUnit ctx last (33 :: s) (.not 0 key) := by
  intro rest hrest pos asked
  obtain ⟨key', next, hp, rfl, hnext⟩ := h rest hrest (pos + 1) asked
  refine ⟨.not pos key', next, ?_, rfl, hnext⟩
  rw [List.cons_append, readNot_of_head rfl rfl]
  change (readNot ctx ⟨pos + 1, s ++ rest, asked⟩).map _ = _
  rw [hp]
  rfl

theorem ReadsOr.enclosed (h : ReadsOr ctx false s key) :
    ReadsUnit ctx last (40 :: s ++ [41]) key := by
  intro rest hrest pos asked
  obtain ⟨key', next, hp, rfl, hnext⟩ :=
    h.alone (41 :: rest) (.inr ⟨rfl, 41, rest, rfl, rfl⟩) nofun nofun (pos + 1) asked
  have hskip : next.skipSpace = next := skipSpace_of_head fun b r hr => by
    rw [hnext] at hr
    cases hr
    rfl
  refine ⟨key', ⟨next.pos + 1, rest, next.asked⟩, ?_, rfl, rfl⟩
  rw [List.append_assoc, List.cons_append, readNot_of_head rfl rfl]
  change groupOutcome ctx ⟨pos + 1, s ++ 41 :: rest, asked⟩ = _
  rw [groupOutcome, show outcome (parseOr ctx ⟨pos + 1, s ++ 41 :: rest, asked⟩) = _ from hp]
  change closeOutcome key' next.skipSpace next.skipSpace.rest = _
  rw [hskip, hnext]
  rfl

theorem scanKey_append {rest : Bytes} (hclear : Clear endsKey false s) (htrim : Trimmed s)
    (hends : Ends s rest) (pos : Nat) (asked : List Bytes) :
    Cursor.scanKey ⟨pos, s ++ rest, asked⟩ = (s, ⟨pos + s.length, rest, asked⟩) := by
  rw [Cursor.scanKey, span_append_eq endsKey_backslash hclear hends]
  dsimp only
  rw [htrim.trim_eq]

theorem notOutcome_key {c : Cursor} {b : UInt8} {r : Bytes} (hb : isOperator b = false) :
    notOutcome ctx c (b :: r) = outcome (parseKey ctx c) := by
  unfold notOutcome
  split
  all_goals first | rfl | (rename_i h; cases h; cases hb)

/-- A text that is read as a key without operators is one operand. -/
theorem readsUnit_key {b : UInt8} {r : Bytes} (hs : s = b :: r) (hb : isOperator b = false)
    (hclear : Clear endsKey false s) (htrim : Trimmed s)
    (hclosed : last = false → pending false s = false)
    (hread : ∀ c, ∃ key' asked, readKey ctx c s = .ok (key', asked) ∧ key'.erase = key) :
    ReadsUnit ctx last s key := by
  intro rest hrest pos asked
  have hscan := scanKey_append hclear htrim (hrest.ends hclosed) pos asked
  obtain ⟨key', asked', hr, rfl⟩ := hread ⟨pos, s ++ rest, asked⟩
  refine ⟨key', ⟨pos + s.length, rest, asked'⟩, ?_, rfl, rfl⟩
  rw [readNot_of_head (b := b) (r := r ++ rest) (by rw [hs]; rfl) (htrim.head b r hs),
    notOutcome_key hb, outcome_parseKey, hscan,
    if_neg (by rw [hs]; exact List.cons_ne_nil b r), hr]
  rfl

/-- A text that is read as the operand of an operator makes one operand with it. -/
theorem operandOutcome_append {c : Cursor} {operator b : UInt8} {r rest : Bytes}
    (hs : s = b :: r) (hb : b ≠ 40) (hclear : Clear endsKey false s) (htrim : Trimmed s)
    (hends : Ends s rest)
    {read : Cursor → Bytes → Except Failure (Key × List Bytes)}
    (hread : ∀ c, ∃ key' asked, read c s = .ok (key', asked) ∧ key'.erase = key) :
    ∃ key' next, operandOutcome c operator (s ++ rest) read = .ok (key', next) ∧
      key'.erase = key ∧
      next.rest = rest := by
  have hskip :
      Cursor.skipSpace ⟨c.pos + 1, s ++ rest, c.asked⟩ = ⟨c.pos + 1, s ++ rest, c.asked⟩ := by
    refine skipSpace_of_head fun b' r' h => ?_
    rw [hs] at h
    cases h
    exact htrim.head b r hs
  obtain ⟨key', asked', hr, rfl⟩ := hread ⟨c.pos + 1, s ++ rest, c.asked⟩
  refine ⟨key', ⟨c.pos + 1 + s.length, rest, asked'⟩, ?_, rfl, rfl⟩
  have hhead : ((s ++ rest).head? == some 40) = false := by
    rw [hs]
    simpa using hb
  rw [operandOutcome]
  dsimp only
  rw [hskip, scanKey_append hclear htrim hends]
  dsimp only
  rw [hhead, if_neg Bool.false_ne_true, if_neg (by rw [hs]; exact List.cons_ne_nil b r), hr]
  rfl

theorem notOutcome_indirect (c : Cursor) (after : Bytes) :
    notOutcome ctx c (64 :: after) = operandOutcome c 64 after fun start text =>
      (readIndirect ctx start text).map fun (id, lock, asked) =>
        (.indirect c.pos id lock, asked) := rfl

theorem isWritten_plain {b : UInt8} (h : Dbref.isWritten b = true) :
    endsKey b = false ∧ dividesKey b = false ∧ isSpace b = false ∧ b ≠ backslash := by
  revert b
  decide +kernel

theorem isConstant_render (d : Dbref) : isConstant d.render = false := by
  have htelling {n : Nat} (hsub : Decimal.ofNat n ⊆ d.render) :
      isConstant d.render = false := by
    obtain ⟨b, r, hb⟩ := List.exists_cons_of_ne_nil (Decimal.ofNat_ne_nil n)
    have hm : b ∈ Decimal.ofNat n := hb ▸ List.mem_cons_self ..
    refine isConstant_eq_false (hsub hm) ?_
    rw [isTelling, Decimal.isDigit_of_mem_ofNat hm, Bool.or_true, Bool.true_or]
  rcases hi : d.num.toInt with n | n
  · refine htelling (n := n) ?_
    rw [Dbref.render_eq, hi]
    exact List.subset_cons_self _ _
  · refine htelling (n := n + 1) ?_
    rw [Dbref.render_eq, hi]
    exact fun b hb => List.mem_cons_of_mem _ (List.mem_cons_of_mem _ hb)

/-- A text that is taken for an object wherever it stands. -/
structure Denotes (ctx : ParseContext) (text : Bytes) (d : Dbref) : Prop where
  first : ∃ b r, text = b :: r ∧ isOperator b = false
  plain : ∀ b ∈ text, endsKey b = false ∧ dividesKey b = false ∧ isSpace b = false ∧
    b ≠ backslash
  inconstant : isConstant text = false
  found : ∀ c, ∃ asked, resolve ctx c text = .ok (d, asked)

section Objects

variable {d : Dbref} (h : Denotes ctx s d)
include h

theorem Denotes.clear : Clear endsKey false s :=
  clear_of_forall (fun b hb => (h.plain b hb).1) false

theorem Denotes.undivided : Clear dividesKey false s :=
  clear_of_forall (fun b hb => (h.plain b hb).2.1) false

theorem Denotes.trimmed : Trimmed s := .of_forall fun b hb => (h.plain b hb).2.2.1

theorem Denotes.closed : pending false s = false := pending_of_not_mem fun hm =>
  (h.plain _ hm).2.2.2 rfl

theorem Denotes.head : ∃ b r, s = b :: r ∧ b ≠ 40 := by
  obtain ⟨b, r, hs, hb⟩ := h.first
  refine ⟨b, r, hs, ?_⟩
  rintro rfl
  cases hb

theorem readsUnit_const : ReadsUnit ctx last s (.const 0 d) := by
  obtain ⟨b, r, hs, hb⟩ := h.first
  refine readsUnit_key hs hb h.clear h.trimmed (fun _ => h.closed) fun c => ?_
  obtain ⟨asked, hfound⟩ := h.found c
  refine ⟨.const c.pos d, asked, ?_, rfl⟩
  rw [readKey, h.inconstant, if_neg Bool.false_ne_true,
    cut_eq_none dividesKey_backslash h.undivided]
  dsimp only
  rw [hfound]
  rfl

theorem objectOutcome_denotes {make : Nat → Dbref → Key}
    (hmake : ∀ pos, (make pos d).erase = key) {c : Cursor}
    {operator : UInt8} {rest : Bytes} (hrest : Follows last rest) :
    ∃ key' next, objectOutcome ctx c operator (s ++ rest) make = .ok (key', next) ∧
      key'.erase = key ∧
      next.rest = rest := by
  obtain ⟨b, r, hs, hb⟩ := h.head
  refine operandOutcome_append hs hb h.clear h.trimmed (hrest.ends fun _ => h.closed)
    fun start => ?_
  obtain ⟨asked, hfound⟩ := h.found start
  refine ⟨make c.pos d, asked, ?_, hmake _⟩
  rw [readObject, h.inconstant, cut_eq_none dividesKey_backslash h.undivided]
  change (resolve ctx start s).map _ = _
  rw [hfound]
  rfl

theorem readIndirect_spelled {lock : Bytes} (hlock : Key.IsLockName lock) (c : Cursor) :
    ∃ asked, readIndirect ctx c (s ++ 47 :: lock) = .ok (d, lock, asked) := by
  have hslash : Clear (· == 47) false s := by
    apply clear_of_forall
    intro b hb
    apply beq_false_of_ne
    rintro rfl
    cases (h.plain 47 hb).2.1
  have hempty : ¬lock.isEmpty = true := by simpa using hlock.ne_nil
  obtain ⟨asked, hfound⟩ := h.found c
  refine ⟨asked, ?_⟩
  rw [readIndirect, cut_append_eq rfl hslash h.closed rfl]
  dsimp only
  rw [h.trimmed.trim_eq, hlock.trimmed.trim_eq,
    unescape_eq_self fun hm => (hlock.plain _ hm).2.1 rfl, if_neg hempty, if_neg hempty, hfound]
  rfl

theorem readsUnit_indirect {lock : Bytes} (hlock : Key.IsLockName lock) :
    ReadsUnit ctx last (64 :: (s ++ 47 :: lock)) (.indirect 0 d lock) := by
  obtain ⟨b, r, hs, hb⟩ := h.head
  have hhead : s ++ 47 :: lock = b :: (r ++ 47 :: lock) := congrArg (· ++ 47 :: lock) hs
  have hclear : Clear endsKey false (s ++ 47 :: lock) := by
    rw [clear_append, h.closed]
    exact ⟨h.clear, rfl, clear_of_forall (fun b hb => (hlock.plain b hb).2.2) _⟩
  have htrim : Trimmed (s ++ 47 :: lock) :=
    h.trimmed.append rfl h.closed (by decide) hlock.trimmed
  have hpend : pending false (s ++ 47 :: lock) = false := by
    rw [pending_append, h.closed, pending_cons]
    exact pending_of_not_mem fun hm => (hlock.plain _ hm).2.1 rfl
  intro rest hrest pos asked
  rw [List.cons_append, readNot_of_head rfl rfl, notOutcome_indirect]
  refine operandOutcome_append hhead hb hclear htrim (hrest.ends fun _ => hpend) fun c => ?_
  obtain ⟨asked', hread⟩ := readIndirect_spelled h hlock c
  refine ⟨.indirect pos d lock, asked', ?_, rfl⟩
  rw [hread]
  rfl

theorem readsUnit_object {operator : UInt8} (make : Nat → Dbref → Key)
    (hoperator : ∀ c after,
      notOutcome ctx c (operator :: after) = objectOutcome ctx c operator after make)
    (hspace : isSpace operator = false) (hmake : ∀ pos, (make pos d).erase = key) :
    ReadsUnit ctx last (operator :: s) key := by
  intro rest hrest pos asked
  rw [List.cons_append, readNot_of_head rfl hspace, hoperator]
  exact objectOutcome_denotes h hmake hrest

end Objects

theorem denotes_render {d : Dbref}
    (hfound : ∀ c, ∃ asked, resolve ctx c d.render = .ok (d, asked)) :
    Denotes ctx d.render d := by
  refine ⟨⟨_, _, Dbref.render_eq d, rfl⟩, ?_, isConstant_render d, hfound⟩
  intro b hb
  obtain ⟨hends, hdivides, hspace, hback⟩ := isWritten_plain (Dbref.isWritten_of_mem_render hb)
  exact ⟨hends, hdivides, hspace, hback⟩

theorem unescape_render (d : Dbref) : unescape d.render = d.render :=
  unescape_eq_self fun hm => (isWritten_plain (Dbref.isWritten_of_mem_render hm)).2.2.2 rfl

/-- Without a matcher, numbers mean objects. -/
theorem denotes_number (hnumbers : (if ctx.loading then none else ctx.matcher) = none)
    {d : Dbref} (hd : d.fitsOperand = true) : Denotes ctx d.render d := by
  refine denotes_render fun c => ⟨c.asked, ?_⟩
  rw [resolve, hnumbers]
  dsimp only
  rw [unescape_render, Dbref.parse_render]
  exact if_pos hd

theorem readKey_spelled {name pattern : Bytes} {divider : UInt8} (hname : Key.IsName name)
    (hpattern : Key.IsPattern last pattern) (hdivider : dividesKey divider = true)
    (c : Cursor) :
    readKey ctx c (name ++ divider :: pattern) =
      if divider == 58 then .ok (.attr c.pos name pattern, c.asked)
      else if divider == 47 then .ok (.eval c.pos name pattern, c.asked)
      else if ctx.knows name then .ok (.flagClass c.pos name pattern, c.asked)
      else c.fail (.unknownClass name) := by
  have htelling : isTelling divider = true := by rw [isTelling, hdivider, Bool.or_true]
  have hclear : Clear dividesKey false name :=
    hname.clear.imp fun b hb => (Bool.or_eq_false_iff.1 hb).2
  have hok : (name.isEmpty || name.any fun b => b == 32 || b == 9) = false := by
    have hspaces : ∀ b ∈ name, (b == 32 || b == 9) = false := by
      intro b hb
      rw [Bool.or_eq_false_iff]
      exact ⟨beq_false_of_ne fun h => hname.plain.2.1 (h ▸ hb), beq_false_of_ne fun h =>
        hname.plain.2.2 (h ▸ hb)⟩
    rw [Bool.or_eq_false_iff, List.any_eq_false]
    exact ⟨by simpa using hname.ne_nil,
      fun b hb => by rw [hspaces b hb]; exact Bool.false_ne_true⟩
  rw [readKey, isConstant_eq_false
    (List.mem_append_right name (List.mem_cons_self ..)) htelling,
    if_neg Bool.false_ne_true, cut_append_eq dividesKey_backslash hclear hname.closed hdivider]
  dsimp only
  rw [hname.trimmed.trim_eq, hpattern.trimmed.trim_eq, hok, if_neg Bool.false_ne_true,
    hname.upper]
  rfl

/-- A name, a divider and a pattern are one operand. -/
theorem readsUnit_text {name pattern : Bytes} {divider : UInt8} (hname : Key.IsName name)
    (hpattern : Key.IsPattern last pattern) (hdivider : dividesKey divider = true)
    (hread : ∀ c, ∃ key' asked,
      readKey ctx c (name ++ divider :: pattern) = .ok (key', asked) ∧ key'.erase = key) :
    ReadsUnit ctx last (name ++ divider :: pattern) key := by
  obtain ⟨b, r, hb⟩ := List.exists_cons_of_ne_nil hname.ne_nil
  have hplain : ∀ d : UInt8, dividesKey d = true →
      endsKey d = false ∧ isSpace d = false ∧ (d == backslash) = false := by
    decide +kernel
  obtain ⟨hends, hspace, hback⟩ := hplain divider hdivider
  have hclear : Clear endsKey false (name ++ divider :: pattern) := by
    rw [clear_append, hname.closed]
    refine ⟨hname.clear.imp fun b hb => (Bool.or_eq_false_iff.1 hb).1, hends, ?_⟩
    rw [hback]
    exact hpattern.clear
  have hpend : last = false → pending false (name ++ divider :: pattern) = false := by
    intro hlast
    rw [pending_append, hname.closed, pending_cons, hback]
    exact hpattern.closed hlast
  exact readsUnit_key (b := b) (r := r ++ divider :: pattern) (by rw [hb]; rfl)
    (hname.head b r hb)
    hclear (hname.trimmed.append hspace hname.closed (ne_of_beq_false hback) hpattern.trimmed)
      hpend hread

theorem readsUnit_bool (value : Bool) :
    ReadsUnit ctx last (if value then "#TRUE" else "#FALSE" : Bytes) (.bool 0 value) := by
  have htexts :
      ∀ value : Bool, isConstant (if value then "#TRUE" else "#FALSE" : Bytes) = true ∧
      Bytes.equalsFold (if value then "#TRUE" else "#FALSE" : Bytes) "#true" = value ∧
      (∀ b ∈ (if value then "#TRUE" else "#FALSE" : Bytes),
        endsKey b = false ∧ isSpace b = false ∧ b ≠ backslash) ∧
      (if value then "#TRUE" else "#FALSE" : Bytes).head? = some 35 := by
    decide +kernel
  obtain ⟨hconstant, hvalue, hplain, hhead⟩ := htexts value
  obtain ⟨r, hr⟩ := List.head?_eq_some_iff.1 hhead
  refine readsUnit_key hr rfl (clear_of_forall (fun b hb => (hplain b hb).1) false)
    (.of_forall fun b hb => (hplain b hb).2.1)
    (fun _ => pending_of_not_mem fun hm => (hplain _ hm).2.2 rfl) fun c =>
      ⟨.bool c.pos value, c.asked, ?_, rfl⟩
  rw [readKey, hconstant, if_pos rfl, hvalue]

/-- How the text of a key is read, at the levels of the grammar that it may stand at. -/
structure ReadsSpelled (ctx : ParseContext) (shown : Dbref → Bytes) (last : Bool)
    (key : Key) : Prop where
  unit : key.isOr = false → key.isAnd = false →
  ReadsUnit ctx last (key.spellAs shown) key.erase.reassoc
  and : key.isOr = false → ReadsAnd ctx last (key.spellAs shown) key.erase.reassoc
  or : ReadsOr ctx last (key.spellAs shown) key.erase.reassoc

theorem isAnd_reassoc_erase (key : Key) : key.erase.reassoc.isAnd = key.isAnd :=
  (Key.isAnd_reassoc _).trans (Key.isAnd_erase _)

theorem isOr_reassoc_erase (key : Key) : key.erase.reassoc.isOr = key.isOr :=
  (Key.isOr_reassoc _).trans (Key.isOr_erase _)

variable {shown : Dbref → Bytes}

theorem ReadsUnit.spelled (h : ReadsUnit ctx last (key.spellAs shown) key.erase.reassoc)
    (hor : key.isOr = false) (hand : key.isAnd = false) : ReadsSpelled ctx shown last key :=
  have hreads := h.readsAnd ((isAnd_reassoc_erase key).trans hand)
  ⟨fun _ _ => h, fun _ => hreads, hreads.readsOr ((isOr_reassoc_erase key).trans hor)⟩

theorem ReadsAnd.spelled (h : ReadsAnd ctx last (key.spellAs shown) key.erase.reassoc)
    (hand : key.isAnd = true) (hor : key.isOr = false) : ReadsSpelled ctx shown last key :=
  ⟨fun _ h' => absurd (hand.symm.trans h') (by decide), fun _ => h,
    h.readsOr ((isOr_reassoc_erase key).trans hor)⟩

/-- An operand of `&` is enclosed if it is an `|`. -/
theorem ReadsSpelled.operand (h : ReadsSpelled ctx shown (last && !key.isOr) key) :
    ReadsAnd ctx last (Key.enclosed key.isOr (key.spellAs shown)) key.erase.reassoc := by
  rcases hor : key.isOr with _ | _
  · rw [hor, Bool.not_false, Bool.and_true] at h
    exact h.and hor
  · rw [hor, Bool.not_true, Bool.and_false] at h
    refine ReadsUnit.readsAnd h.or.enclosed ?_
    rw [isAnd_reassoc_erase]
    cases key with
    | or => rfl
    | _ => cases hor

/-- An operand of `!` is enclosed if it is an `|` or an `&`. -/
theorem ReadsSpelled.negated
    (h : ReadsSpelled ctx shown (last && !(key.isOr || key.isAnd)) key) :
    ReadsUnit ctx last (Key.enclosed (key.isOr || key.isAnd) (key.spellAs shown))
      key.erase.reassoc := by
  rcases hmark : key.isOr || key.isAnd with _ | _
  · rw [hmark, Bool.not_false, Bool.and_true] at h
    rw [Bool.or_eq_false_iff] at hmark
    exact h.unit hmark.1 hmark.2
  · rw [hmark, Bool.not_true, Bool.and_false] at h
    exact h.or.enclosed

theorem readsSpelled (hobjects : ∀ d ∈ Assembly.objects key, Denotes ctx (shown d) d)
    (h : key.Sound ctx.knows last) : ReadsSpelled ctx shown last key := by
  induction key generalizing last with
  | and pos left right ihl ihr =>
    have hleft := ihl (fun d hd => hobjects d (List.mem_append_left _ hd)) h.1
    have hright := ihr (fun d hd => hobjects d (List.mem_append_right _ hd)) h.2
    exact ReadsAnd.spelled (hleft.operand.join hright.operand) rfl rfl
  | or pos left right ihl ihr =>
    have hleft := ihl (fun d hd => hobjects d (List.mem_append_left _ hd)) h.1
    have hright := ihr (fun d hd => hobjects d (List.mem_append_right _ hd)) h.2
    exact ⟨fun h _ => absurd h nofun, fun h => absurd h nofun, hleft.or.join hright.or⟩
  | not pos operand ih => exact (ih hobjects h).negated.not.spelled rfl rfl
  | const pos d =>
    exact (readsUnit_const (hobjects d (List.mem_singleton_self d))).spelled rfl rfl
  | is pos d =>
    have hd := hobjects d (List.mem_singleton_self d)
    exact (readsUnit_object hd .is (fun _ _ => rfl) rfl fun _ => rfl).spelled rfl rfl
  | carry pos d =>
    have hd := hobjects d (List.mem_singleton_self d)
    exact (readsUnit_object hd .carry (fun _ _ => rfl) rfl fun _ => rfl).spelled rfl rfl
  | owner pos d =>
    have hd := hobjects d (List.mem_singleton_self d)
    exact (readsUnit_object hd .owner (fun _ _ => rfl) rfl fun _ => rfl).spelled rfl rfl
  | indirect pos d lock =>
    exact (readsUnit_indirect (hobjects d (List.mem_singleton_self d)) h.2).spelled rfl rfl
  | attr pos name pattern =>
    refine ReadsUnit.spelled (readsUnit_text h.1 h.2 rfl fun c => ?_) rfl rfl
    exact ⟨_, _, readKey_spelled h.1 h.2 rfl c, rfl⟩
  | eval pos name pattern =>
    refine ReadsUnit.spelled (readsUnit_text h.1 h.2 rfl fun c => ?_) rfl rfl
    exact ⟨_, _, readKey_spelled h.1 h.2 rfl c, rfl⟩
  | flagClass pos name pattern =>
    obtain ⟨hknown, hname, hpattern⟩ := h
    refine ReadsUnit.spelled (readsUnit_text hname hpattern rfl fun c => ?_) rfl rfl
    exact ⟨_, _, (readKey_spelled hname hpattern rfl c).trans (if_pos hknown), rfl⟩
  | bool pos value => exact (readsUnit_bool value).spelled rfl rfl

theorem spellAs_head (shown : Dbref → Bytes) {known : Bytes → Bool}
    (hobjects : ∀ d ∈ Assembly.objects key, ∃ b r, shown d = b :: r ∧ isSpace b = false)
    (h : key.Sound known last) :
    ∃ b r, key.spellAs shown = b :: r ∧ isSpace b = false := by
  have hname {name : Bytes} (hname : Key.IsName name) (t : Bytes) :
      ∃ b r, name ++ t = b :: r ∧ isSpace b = false := by
    obtain ⟨b, r, rfl⟩ := List.exists_cons_of_ne_nil hname.ne_nil
    exact ⟨b, r ++ t, rfl, hname.trimmed.head b r rfl⟩
  induction key generalizing last with
  | and pos left right ihl _ =>
    rw [Key.spellAs, Key.enclosed]
    split
    · exact ⟨40, _, rfl, rfl⟩
    · obtain ⟨b, r, hs, hb⟩ := ihl (fun d hd => hobjects d (List.mem_append_left _ hd)) h.1
      exact ⟨b, _, by rw [hs]; rfl, hb⟩
  | or pos left right ihl _ =>
    obtain ⟨b, r, hs, hb⟩ := ihl (fun d hd => hobjects d (List.mem_append_left _ hd)) h.1
    exact ⟨b, _, by rw [Key.spellAs, hs]; rfl, hb⟩
  | const pos d => exact hobjects d (List.mem_singleton_self d)
  | attr pos name pattern => exact hname h.1 _
  | eval pos name pattern => exact hname h.1 _
  | flagClass pos name pattern => exact hname h.2.1 _
  | bool pos value =>
    cases value with
    | false => exact ⟨35, _, rfl, rfl⟩
    | true => exact ⟨35, _, rfl, rfl⟩
  | _ => exact ⟨_, _, rfl, rfl⟩

theorem parse_cons {b : UInt8} {r : Bytes} (hb : isSpace b = false) :
    Key.parse ctx (b :: r) =
      match readOr ctx ⟨0, b :: r, []⟩ with
      | .error e => .error e.error
      | .ok (key, next) =>
        match next.skipSpace.rest with
        | [] => .ok (some key)
        | b :: _ => .error ⟨next.skipSpace.pos, .unexpected b⟩ := by
  have hskip : Cursor.skipSpace ⟨0, b :: r, []⟩ = ⟨0, b :: r, []⟩ := by
    refine skipSpace_of_head fun b' r' h' => ?_
    cases h'
    exact hb
  rw [Key.parse, parseAll]
  dsimp only
  rw [hskip, if_neg (by simp)]
  rcases hr : parseOr ctx ⟨0, b :: r, []⟩ with e | parsed
  · rw [readOr, hr]
    rfl
  · rw [readOr, hr]
    dsimp only [outcome, Except.map]
    rcases parsed.next.skipSpace.rest with _ | ⟨b', r'⟩
    · rfl
    · rfl

theorem parse_of_outcome {b : UInt8} {r : Bytes} {next : Cursor} (hb : isSpace b = false)
    (h : readOr ctx ⟨0, b :: r, []⟩ = .ok (key, next)) (hnext : next.rest = []) :
    Key.parse ctx (b :: r) = .ok (some key) := by
  have hlast : next.skipSpace.rest = [] := by
    rw [Cursor.skipSpace, hnext]
    rfl
  rw [parse_cons hb, h]
  dsimp only
  rw [hlast]

/-- A sound key is read back as it is spelled. -/
theorem parse_spellAs (shown : Dbref → Bytes)
    (hobjects : ∀ d ∈ Assembly.objects key, Denotes ctx (shown d) d)
    (h : key.Sound ctx.knows true) :
    ∃ key', Key.parse ctx (key.spellAs shown) = .ok (some key') ∧
      key'.erase = key.erase.reassoc := by
  have hfirst (d : Dbref) (hd : d ∈ Assembly.objects key) :
      ∃ b r, shown d = b :: r ∧ isSpace b = false := by
    obtain ⟨b, r, hs, -⟩ := (hobjects d hd).first
    exact ⟨b, r, hs, (hobjects d hd).trimmed.head b r hs⟩
  obtain ⟨b, r, hs, hb⟩ := spellAs_head shown hfirst h
  obtain ⟨key', next, hp, hkey, hnext⟩ :=
    (readsSpelled hobjects h).or.alone [] (.inl rfl) nofun nofun 0 []
  rw [List.append_nil, hs] at hp
  rw [hs]
  exact ⟨key', parse_of_outcome hb hp hnext, hkey⟩

theorem parse_spell (hnumbers : (if ctx.loading then none else ctx.matcher) = none)
    (h : key.Sound ctx.knows true) :
    ∃ key', Key.parse ctx key.spell = .ok (some key') ∧ key'.erase = key.erase.reassoc := by
  rw [← Key.spellAs_render]
  exact parse_spellAs _ (fun d hd => denotes_number hnumbers (h.objects d hd)) h

end Parser
end Locksmith
