import Locksmith.Proofs.Lock.Spelling

namespace Locksmith

def ParseContext.knows (ctx : ParseContext) (name : Bytes) : Bool := ctx.classes.any (· name)

namespace Parser

open Escape

variable {ctx : ParseContext}

def outcome {c : Cursor} (x : Except Failure (Parsed c)) : Except Failure (Key × Cursor) :=
  x.map fun r => (r.key, r.next)

theorem outcome_length {c : Cursor} {x : Except Failure (Parsed c)} {key : Key} {next : Cursor}
    (h : outcome x = .ok (key, next)) : next.rest.length < c.rest.length := by
  rcases x with e | r
  · cases h
  · cases h
    exact r.shorter

def proceed (operator : UInt8) (make : Nat → Key → Key → Key)
    (more : Cursor → Except Failure (Key × Cursor)) (key : Key) (next : Cursor) :
    Except Failure (Key × Cursor) :=
  match next.skipSpace.rest with
  | [] => .ok (key, next.skipSpace)
  | b :: after =>
    if b = operator then
      (more ⟨next.skipSpace.pos + 1, after, next.asked⟩).map fun q =>
        (make next.skipSpace.pos key q.1, q.2)
    else .ok (key, next.skipSpace)

section Proceed

variable {operator : UInt8} {make : Nat → Key → Key → Key}
  {more : Cursor → Except Failure (Key × Cursor)} {key : Key} {next : Cursor}

theorem proceed_hit {after : Bytes} (h : next.skipSpace.rest = operator :: after) :
    proceed operator make more key next =
      (more ⟨next.skipSpace.pos + 1, after, next.asked⟩).map fun q =>
        (make next.skipSpace.pos key q.1, q.2) := by
  rw [proceed, h]
  exact if_pos rfl

theorem proceed_miss (h : ∀ after, next.skipSpace.rest ≠ operator :: after) :
    proceed operator make more key next = .ok (key, next.skipSpace) := by
  rw [proceed]
  split
  · rfl
  · rename_i b after hrest
    refine if_neg ?_
    rintro rfl
    exact h after hrest

end Proceed

theorem outcome_parseOr (c : Cursor) :
    outcome (parseOr ctx c) = outcome (parseAnd ctx c) >>= fun p =>
      proceed 124 .or (fun c => outcome (parseOr ctx c)) p.1 p.2 := by
  rw [parseOr]
  rcases parseAnd ctx c with e | left
  · rfl
  · change outcome _ = proceed 124 .or (fun c => outcome (parseOr ctx c)) left.key left.next
    dsimp only
    split
    · rename_i after h
      rw [proceed_hit h]
      rcases parseOr ctx _ with e | right
      · rfl
      · rfl
    · rename_i h
      rw [proceed_miss h]
      rfl

theorem outcome_parseAnd (c : Cursor) :
    outcome (parseAnd ctx c) = outcome (parseNot ctx c) >>= fun p =>
      proceed 38 .and (fun c => outcome (parseAnd ctx c)) p.1 p.2 := by
  rw [parseAnd]
  rcases parseNot ctx c with e | left
  · rfl
  · change outcome _ = proceed 38 .and (fun c => outcome (parseAnd ctx c)) left.key left.next
    dsimp only
    split
    · rename_i after h
      rw [proceed_hit h]
      rcases parseAnd ctx _ with e | right
      · rfl
      · rfl
    · rename_i h
      rw [proceed_miss h]
      rfl

theorem outcome_map {c c' : Cursor} (x : Except Failure (Parsed c))
    (h : ∀ r : Parsed c, r.next.rest.length < c'.rest.length) :
    outcome (x.map fun r => (⟨r.key, r.next, h r⟩ : Parsed c')) = outcome x := by
  rcases x with e | r
  · rfl
  · rfl

def operandOutcome (c : Cursor) (operator : UInt8) (after : Bytes)
    (read : Cursor → Bytes → Except Failure (Key × List Bytes)) :
    Except Failure (Key × Cursor) :=
  let start := Cursor.skipSpace ⟨c.pos + 1, after, c.asked⟩
  if start.rest.head? == some 40 then start.fail (.expectedObject operator)
  else if start.scanKey.1 = [] then start.fail (.expectedObject operator)
  else (read start start.scanKey.1).map fun p => (p.1, { start.scanKey.2 with asked := p.2 })

theorem outcome_parseOperand (c : Cursor) (operator : UInt8) (after : Bytes)
    (h : after.length < c.rest.length)
    (read : Cursor → Bytes → Except Failure (Key × List Bytes)) :
    outcome (parseOperand c operator after h read) = operandOutcome c operator after read := by
  unfold parseOperand operandOutcome
  dsimp only
  split
  · rfl
  · split
    · rfl
    · rcases read _ _ with e | ⟨key, asked⟩
      · rfl
      · rfl

/-- What follows a key in parentheses, where `rest` follows. -/
def closeOutcome (key : Key) (c : Cursor) (rest : Bytes) : Except Failure (Key × Cursor) :=
  match rest with
  | 41 :: after => .ok (key, ⟨c.pos + 1, after, c.asked⟩)
  | _ => c.fail .missingClose

def groupOutcome (ctx : ParseContext) (c : Cursor) : Except Failure (Key × Cursor) :=
  outcome (parseOr ctx c) >>= fun p => closeOutcome p.1 p.2.skipSpace p.2.skipSpace.rest

def objectOutcome (ctx : ParseContext) (c : Cursor) (operator : UInt8) (after : Bytes)
    (make : Nat → Dbref → Key) : Except Failure (Key × Cursor) :=
  operandOutcome c operator after fun start text =>
    (readObject ctx start operator text).map fun (id, asked) => (make c.pos id, asked)

/-- Reads one operand of `&` and `|` where `rest` follows. -/
def notOutcome (ctx : ParseContext) (c : Cursor) (rest : Bytes) :
    Except Failure (Key × Cursor) :=
  match rest with
  | 33 :: after =>
    (outcome (parseNot ctx ⟨c.pos + 1, after, c.asked⟩)).map fun p => (.not c.pos p.1, p.2)
  | 64 :: after =>
    operandOutcome c 64 after fun start text =>
      (readIndirect ctx start text).map fun (id, lock, asked) =>
        (.indirect c.pos id lock, asked)
  | 61 :: after => objectOutcome ctx c 61 after .is
  | 43 :: after => objectOutcome ctx c 43 after .carry
  | 36 :: after => objectOutcome ctx c 36 after .owner
  | 40 :: after => groupOutcome ctx ⟨c.pos + 1, after, c.asked⟩
  | _ => outcome (parseKey ctx c)

theorem outcome_parseNot (c : Cursor) :
    outcome (parseNot ctx c) = notOutcome ctx c.skipSpace c.skipSpace.rest := by
  rw [parseNot]
  dsimp only
  split
  · rename_i after h
    refine Eq.trans ?_ (congrArg (notOutcome ctx c.skipSpace) h.symm)
    change _ = (outcome (parseNot ctx ⟨c.skipSpace.pos + 1, after, c.asked⟩)).map _
    rcases parseNot ctx ⟨c.skipSpace.pos + 1, after, c.asked⟩ with e | operand
    · rfl
    · rfl
  iterate 4
    · rename_i after h
      refine Eq.trans ?_ (congrArg (notOutcome ctx c.skipSpace) h.symm)
      rw [outcome_map, outcome_parseOperand]
      rfl
  · rename_i after h
    refine Eq.trans ?_ (congrArg (notOutcome ctx c.skipSpace) h.symm)
    change _ = groupOutcome ctx ⟨c.skipSpace.pos + 1, after, c.asked⟩
    rw [groupOutcome]
    rcases parseOr ctx ⟨c.skipSpace.pos + 1, after, c.asked⟩ with e | inner
    · rfl
    · change _ = closeOutcome inner.key inner.next.skipSpace inner.next.skipSpace.rest
      dsimp only
      split
      · rename_i after' h'
        exact (congrArg (closeOutcome inner.key inner.next.skipSpace) h').symm
      · rename_i h'
        rw [closeOutcome]
        · rfl
        · exact h'
  · rename_i h1 h2 h3 h4 h5 h6
    rw [outcome_map, notOutcome]
    · exact h1
    · exact h2
    · exact h3
    · exact h4
    · exact h5
    · exact h6

theorem outcome_parseKey (c : Cursor) :
    outcome (parseKey ctx c) =
      if c.scanKey.1 = [] then c.fail .emptyKey
      else (readKey ctx c c.scanKey.1).map fun p =>
        (p.1, { c.scanKey.2 with asked := p.2 }) := by
  rw [parseKey]
  split
  · rfl
  · rcases readKey ctx c c.scanKey.1 with e | ⟨key, asked⟩
    · rfl
    · rfl

theorem skipSpace_of_head {c : Cursor} (h : ∀ b r, c.rest = b :: r → isSpace b = false) :
    c.skipSpace = c := by
  obtain ⟨pos, rest, asked⟩ := c
  rcases rest with _ | ⟨b, r⟩
  · rfl
  · have hb := h b r rfl
    simp [Cursor.skipSpace, hb]

theorem skipSpace_head (c : Cursor) {b : UInt8} {r : Bytes} (h : c.skipSpace.rest = b :: r) :
    isSpace b = false := by
  have hdrop : c.rest.dropWhile isSpace = b :: r := h
  have hnot := List.head?_dropWhile_not isSpace c.rest
  rw [hdrop] at hnot
  exact hnot

theorem skipSpace_skipSpace (c : Cursor) : c.skipSpace.skipSpace = c.skipSpace :=
  skipSpace_of_head fun _ _ => skipSpace_head c

theorem not_mem_skipSpace {c : Cursor} {b : UInt8} (h : b ∉ c.rest) : b ∉ c.skipSpace.rest :=
  fun hm => h ((List.dropWhile_sublist _).subset hm)

/-- What may follow a key that was read up to its end. -/
def Ends (s rest : Bytes) : Prop :=
  rest = [] ∨ pending false s = false ∧ ∃ b r, rest = b :: r ∧ endsKey b = true

theorem endsKey_backslash : endsKey backslash = false := rfl

theorem dividesKey_backslash : dividesKey backslash = false := rfl

theorem isSpace_of_endsKey {b : UInt8} (h : endsKey b = true) : isSpace b = false := by
  rcases hb : isSpace b with _ | _
  · rfl
  · revert b
    decide +kernel

/-- What is known of a scanned key: `text` is its text, and `next` stands behind it. -/
structure Scanned (c : Cursor) (text : Bytes) (next : Cursor) : Prop where
  clear : Clear endsKey false text
  trimmed : Trimmed text
  ends : Ends text next.rest
  text_subset : text ⊆ c.rest
  rest_subset : next.rest ⊆ c.rest
  head : ∀ b r, text = b :: r → ∀ b' r', c.rest = b' :: r' → isSpace b' = false → b = b'

theorem scanKey_scanned (c : Cursor) : Scanned c c.scanKey.1 c.scanKey.2 := by
  have happ := span_append endsKey c.rest
  obtain ⟨hclear, hends⟩ := span_spec endsKey_backslash c.rest
  refine ⟨hclear.trim, trim_trimmed _, ?_, ?_, ?_, ?_⟩
  · rcases hends with hnil | ⟨hp, hb⟩
    · exact .inl hnil
    · exact .inr ⟨(pending_trim _).trans hp, hb⟩
  · intro b hb
    rw [← happ]
    exact List.mem_append_left _ (trim_subset hb)
  · intro b hb
    rw [← happ]
    exact List.mem_append_right _ hb
  · intro b r htext b' r' hrest hspace
    change trim _ = b :: r at htext
    rcases hs : (span endsKey c.rest).1 with _ | ⟨x, s⟩
    · rw [hs] at htext
      cases htext
    · rw [← happ, hs] at hrest
      cases hrest
      exact trim_head htext hs hspace

theorem resolve_fits {c : Cursor} {text : Bytes} {id : Dbref} {asked : List Bytes}
    (h : resolve ctx c text = .ok (id, asked)) : id.fitsOperand = true := by
  rw [resolve] at h
  split at h
  · split at h
    · split at h
      · cases h
        assumption
      · cases h
    · cases h
  · dsimp only at h
    split at h
    · cases h
    · split at h
      · cases h
      · split at h
        · cases h
          assumption
        · cases h

/-- What stands before the divider of a key is a name, once in upper case. -/
theorem isName_toUpper {text before after : Bytes} {divider : UInt8}
    (hcut : cut dividesKey text = some (before, divider, after))
    (hclear : Clear endsKey false text)
    (htrim : Trimmed text) (hzero : 0 ∉ text)
    (hhead : ∀ b r, text = b :: r → isOperator b = false)
    (hne : trim before ≠ []) (hspace : 32 ∉ trim before ∧ 9 ∉ trim before) :
    Key.IsName (trim before).toUpper := by
  obtain ⟨rfl, hdiv, hpend, hd⟩ := cut_eq_some dividesKey_backslash hcut
  have hrecased := Bytes.recased_toUpper (trim before)
  have hmark {b : UInt8} (hb : Bytes.isMark b = false) :
      (endsKey b || dividesKey b) = false := by
    revert b
    decide +kernel
  have hoperator {b : UInt8} (hb : isOperator b = true) : Bytes.isMark b = true := by
    revert b
    decide +kernel
  refine ⟨?_, Bytes.toUpper_toUpper _, ?_, ?_, hrecased.trimmed (trim_trimmed _), ?_, ?_⟩
  · rwa [Ne, ← hrecased.eq_nil_iff]
  · exact hrecased.clear (fun b => hmark) (((clear_append.1 hclear).1.trim).or hdiv.trim)
  · rw [← hrecased.pending_eq, pending_trim, hpend]
  · rw [← hrecased.mem_iff rfl, ← hrecased.mem_iff rfl, ← hrecased.mem_iff rfl]
    exact ⟨fun hm => hzero (List.mem_append_left _ (trim_subset hm)), hspace⟩
  · intro b r hb
    rcases hop : isOperator b with _ | _
    · rfl
    · obtain ⟨r', hr⟩ := hrecased.head hb (hoperator hop)
      rcases before with _ | ⟨x, before⟩
      · exact absurd rfl hne
      · rw [trim_head hr rfl (htrim.head x _ rfl), hhead x _ rfl] at hop
        exact hop.symm

theorem isPattern_trim {last : Bool} {text before after : Bytes} {divider : UInt8}
    (hcut : cut dividesKey text = some (before, divider, after))
    (hclear : Clear endsKey false text)
    (hzero : 0 ∉ text) (hclosed : last = false → pending false text = false) :
    Key.IsPattern last (trim after) := by
  obtain ⟨rfl, -, hpend, hd⟩ := cut_eq_some dividesKey_backslash hcut
  have hdivider : (divider == backslash) = false := by
    refine beq_false_of_ne ?_
    rintro rfl
    cases hd
  rw [pending_append, hpend, pending_cons, hdivider] at hclosed
  rw [clear_append, hpend] at hclear
  obtain ⟨-, -, hafter⟩ := hclear
  rw [hdivider] at hafter
  refine ⟨hafter.trim, ?_, trim_trimmed _, ?_⟩
  · intro hlast
    rw [pending_trim]
    exact hclosed hlast
  · exact fun hm => hzero (List.mem_append_right _ (List.mem_cons_of_mem _ (trim_subset hm)))

theorem readKey_sound {c : Cursor} {text : Bytes} {key : Key} {asked : List Bytes} {last : Bool}
    (h : readKey ctx c text = .ok (key, asked)) (hclear : Clear endsKey false text)
    (htrim : Trimmed text) (hzero : 0 ∉ text)
    (hhead : ∀ b r, text = b :: r → isOperator b = false)
    (hclosed : last = false → pending false text = false) :
    key.Sound ctx.knows last ∧ key.isOr = false ∧ key.isAnd = false := by
  rw [readKey] at h
  split at h
  · cases h
    exact ⟨trivial, rfl, rfl⟩
  · split at h
    · rcases hr : resolve ctx c text with e | ⟨id, asked⟩
      · rw [hr] at h
        cases h
      · rw [hr] at h
        cases h
        exact ⟨resolve_fits hr, rfl, rfl⟩
    · rename_i before divider after hcut
      dsimp only at h
      split at h
      · cases h
      · rename_i hname
        simp only [Bool.or_eq_true, List.isEmpty_iff, List.any_eq_true, beq_iff_eq, not_or,
          not_exists, not_and] at hname
        have hspace : 32 ∉ trim before ∧ 9 ∉ trim before :=
          ⟨fun hm => (hname.2 32 hm).1 rfl, fun hm => (hname.2 9 hm).2 rfl⟩
        have hisName := isName_toUpper hcut hclear htrim hzero hhead hname.1 hspace
        have hisPattern := isPattern_trim hcut hclear hzero hclosed
        split at h
        · cases h
          exact ⟨⟨hisName, hisPattern⟩, rfl, rfl⟩
        · split at h
          · cases h
            exact ⟨⟨hisName, hisPattern⟩, rfl, rfl⟩
          · split at h
            · rename_i hknown
              cases h
              exact ⟨⟨hknown, hisName, hisPattern⟩, rfl, rfl⟩
            · cases h

/-- What is read is a sound key, the last of the text if only white space follows it. Keys that
are `tight` came out of parentheses, so another byte follows them. -/
def ReadsSound (ctx : ParseContext) (tight : Key → Bool)
    (x : Except Failure (Key × Cursor)) : Prop :=
  ∀ key next, x = .ok (key, next) → (∀ s ∈ key.lockNames, Key.IsLockName s) →
    0 ∉ next.rest ∧ key.Sound ctx.knows (next.skipSpace.rest.isEmpty && !tight key)

theorem proceed_readsSound {operator : UInt8} {make : Nat → Key → Key → Key}
    {tight tight' : Key → Bool} {first : Except Failure (Key × Cursor)}
    {more : Cursor → Except Failure (Key × Cursor)} {n : Nat}
    (hfirst : ReadsSound ctx tight first)
    (hlength : ∀ key next, first = .ok (key, next) → next.rest.length < n)
    (hmore : ∀ c : Cursor, c.rest.length < n → 0 ∉ c.rest → ReadsSound ctx tight' (more c))
    (hnames : ∀ pos left right,
      (make pos left right).lockNames = left.lockNames ++ right.lockNames)
    (hmake : ∀ pos left right last, left.Sound ctx.knows false →
      right.Sound ctx.knows (last && !tight' right) →
        (make pos left right).Sound ctx.knows (last && !tight' (make pos left right)))
    (hone : ∀ (key : Key) last, key.Sound ctx.knows (last && !tight key) →
      key.Sound ctx.knows (last && !tight' key)) :
    ReadsSound ctx tight' (first >>= fun p => proceed operator make more p.1 p.2) := by
  intro key next h hlocks
  rcases hf : first with e | ⟨left, mid⟩
  · rw [hf] at h
    cases h
  rw [hf] at h
  change proceed operator make more left mid = .ok (key, next) at h
  by_cases hhit : ∃ after, mid.skipSpace.rest = operator :: after
  · obtain ⟨after, hhit⟩ := hhit
    rw [proceed_hit hhit] at h
    rcases hm : more ⟨mid.skipSpace.pos + 1, after, mid.asked⟩ with e | ⟨right, last⟩
    · rw [hm] at h
      cases h
    rw [hm] at h
    cases h
    rw [hnames] at hlocks
    obtain ⟨hzero, hleft⟩ := hfirst left mid hf fun s hs => hlocks s (List.mem_append_left _ hs)
    have hafter : 0 ∉ after := by
      have := not_mem_skipSpace hzero
      rw [hhit] at this
      exact fun hm => this (List.mem_cons_of_mem _ hm)
    have hshort : after.length < n := by
      have hskip := mid.skipSpace_length
      have hmid := hlength left mid hf
      rw [hhit, List.length_cons] at hskip
      omega
    obtain ⟨hzero', hright⟩ := hmore _ hshort hafter right last hm
      fun s hs => hlocks s (List.mem_append_right _ hs)
    rw [hhit] at hleft
    exact ⟨hzero', hmake _ _ _ _ hleft hright⟩
  · rw [proceed_miss fun after ha => hhit ⟨after, ha⟩] at h
    cases h
    obtain ⟨hzero, hkey⟩ := hfirst key mid hf hlocks
    rw [skipSpace_skipSpace]
    exact ⟨not_mem_skipSpace hzero, hone _ _ hkey⟩

theorem isEmpty_of_ends {s : Bytes} {c : Cursor} (h : Ends s c.rest)
    (hlast : c.skipSpace.rest.isEmpty = false) : pending false s = false := by
  obtain hnil | ⟨hpend, -⟩ := h
  · rw [Cursor.skipSpace, hnil] at hlast
    cases hlast
  · exact hpend

theorem parseKey_readsSound {c : Cursor} (hzero : 0 ∉ c.rest)
    (hspace : ∀ b r, c.rest = b :: r → isSpace b = false ∧ isOperator b = false) :
    ReadsSound ctx (fun key => key.isOr || key.isAnd) (outcome (parseKey ctx c)) := by
  intro key next h hlocks
  rw [outcome_parseKey] at h
  split at h
  · cases h
  rename_i hne
  rcases hr : readKey ctx c c.scanKey.1 with e | ⟨k, asked⟩
  · rw [hr] at h
    cases h
  rw [hr] at h
  cases h
  have hscan := scanKey_scanned c
  have hhead : ∀ b r, c.scanKey.1 = b :: r → isOperator b = false := by
    intro b r htext
    obtain ⟨b', r', hrest⟩ := List.exists_cons_of_ne_nil (l := c.rest)
      (List.ne_nil_of_mem (hscan.text_subset (htext ▸ List.mem_cons_self ..)))
    rw [hscan.head b r htext b' r' hrest (hspace b' r' hrest).1]
    exact (hspace b' r' hrest).2
  obtain ⟨hsound, hor, hand⟩ := readKey_sound hr hscan.clear hscan.trimmed
    (fun hm => hzero (hscan.text_subset hm)) hhead (isEmpty_of_ends hscan.ends)
  refine ⟨fun hm => hzero (hscan.rest_subset hm), ?_⟩
  change k.Sound ctx.knows (c.scanKey.2.skipSpace.rest.isEmpty && !(k.isOr || k.isAnd))
  rw [hor, hand]
  rwa [Bool.or_self, Bool.not_false, Bool.and_true]

theorem operandOutcome_readsSound {c : Cursor} {operator : UInt8} {after : Bytes}
    {read : Cursor → Bytes → Except Failure (Key × List Bytes)} (hzero : 0 ∉ after)
    (hread : ∀ start text key asked, read start text = .ok (key, asked) →
      (∀ s ∈ key.lockNames, Key.IsLockName s) → ∀ last, key.Sound ctx.knows last)
    (tight : Key → Bool) : ReadsSound ctx tight (operandOutcome c operator after read) := by
  intro key next h hlocks
  rw [operandOutcome] at h
  dsimp only at h
  generalize hstart : Cursor.skipSpace ⟨c.pos + 1, after, c.asked⟩ = start at h
  have hzero' : 0 ∉ start.rest :=
    hstart ▸ not_mem_skipSpace (c := ⟨c.pos + 1, after, c.asked⟩) hzero
  split at h
  · cases h
  split at h
  · cases h
  rcases hr : read start start.scanKey.1 with e | ⟨k, asked⟩
  · rw [hr] at h
    cases h
  rw [hr] at h
  cases h
  exact ⟨fun hm => hzero' ((scanKey_scanned start).rest_subset hm), hread _ _ _ _ hr hlocks _⟩

theorem objectOutcome_readsSound {c : Cursor} {operator : UInt8} {after : Bytes}
    {make : Nat → Dbref → Key} (hzero : 0 ∉ after)
    (hmake : ∀ pos id last, id.fitsOperand = true → (make pos id).Sound ctx.knows last)
    (tight : Key → Bool) : ReadsSound ctx tight (objectOutcome ctx c operator after make) := by
  refine operandOutcome_readsSound hzero (fun start text key asked h _ last => ?_) tight
  rw [readObject] at h
  split at h
  · cases h
  rcases hr : resolve ctx start text with e | ⟨id, asked⟩
  · rw [hr] at h
    cases h
  rw [hr] at h
  cases h
  exact hmake _ _ _ (resolve_fits hr)

theorem readIndirect_sound {c : Cursor} {text lock : Bytes} {id : Dbref} {asked : List Bytes}
    (h : readIndirect ctx c text = .ok (id, lock, asked)) : id.fitsOperand = true := by
  have hfound {object lock' : Bytes}
      (h : (if lock'.isEmpty then c.fail (.needsLockName object)
        else (resolve ctx c object).map fun p => (p.1, lock', p.2)) = .ok (id, lock, asked)) :
      id.fitsOperand = true := by
    split at h
    · cases h
    rcases hr : resolve ctx c object with e | ⟨id, asked⟩
    · rw [hr] at h
      cases h
    rw [hr] at h
    cases h
    exact resolve_fits hr
  rw [readIndirect] at h
  split at h
  exact hfound h

theorem groupOutcome_readsSound {c : Cursor}
    (h : ReadsSound ctx (fun _ => false) (outcome (parseOr ctx c))) (tight : Key → Bool) :
    ReadsSound ctx tight (groupOutcome ctx c) := by
  intro key next hkey hlocks
  rw [groupOutcome] at hkey
  rcases hr : outcome (parseOr ctx c) with e | ⟨k, mid⟩
  · rw [hr] at hkey
    cases hkey
  rw [hr] at hkey
  change closeOutcome k mid.skipSpace mid.skipSpace.rest = _ at hkey
  unfold closeOutcome at hkey
  split at hkey
  · rename_i after hrest
    cases hkey
    obtain ⟨hzero, hsound⟩ := h key mid hr hlocks
    have hafter := not_mem_skipSpace hzero
    rw [hrest] at hafter hsound
    exact ⟨fun hm => hafter (List.mem_cons_of_mem _ hm), hsound.mono _⟩
  · cases hkey

theorem notOutcome_readsSound {c : Cursor} {n : Nat} (hn : c.rest.length ≤ n)
    (hzero : 0 ∉ c.rest) (hspace : ∀ b r, c.rest = b :: r → isSpace b = false)
    (hnot : ∀ c : Cursor, c.rest.length < n → 0 ∉ c.rest →
      ReadsSound ctx (fun key => key.isOr || key.isAnd) (outcome (parseNot ctx c)))
    (hor : ∀ c : Cursor, c.rest.length < n → 0 ∉ c.rest →
      ReadsSound ctx (fun _ => false) (outcome (parseOr ctx c))) :
    ReadsSound ctx (fun key => key.isOr || key.isAnd) (notOutcome ctx c c.rest) := by
  have hafter {b : UInt8} {after : Bytes} (h : c.rest = b :: after) :
      after.length < n ∧ 0 ∉ after := by
    rw [h] at hn hzero
    exact ⟨hn, fun hm => hzero (List.mem_cons_of_mem _ hm)⟩
  unfold notOutcome
  split
  · rename_i after h
    intro key next hkey hlocks
    rcases hr : outcome (parseNot ctx ⟨c.pos + 1, after, c.asked⟩) with e | ⟨k, mid⟩
    · rw [hr] at hkey
      cases hkey
    rw [hr] at hkey
    cases hkey
    obtain ⟨hzero', hsound⟩ := hnot _ (hafter h).1 (hafter h).2 k mid hr hlocks
    refine ⟨hzero', ?_⟩
    change k.Sound ctx.knows ((mid.skipSpace.rest.isEmpty && true) && _)
    rwa [Bool.and_true]
  · rename_i after h
    refine operandOutcome_readsSound (hafter h).2
      (fun start text key asked hread hlocks last => ?_) _
    rcases hr : readIndirect ctx start text with e | ⟨id, lock, asked⟩
    · rw [hr] at hread
      cases hread
    rw [hr] at hread
    cases hread
    exact ⟨readIndirect_sound hr, hlocks lock (List.mem_singleton_self lock)⟩
  iterate 3
    · rename_i after h
      refine objectOutcome_readsSound (hafter h).2 (fun pos id last hd => ?_) _
      exact hd
  · rename_i after h
    exact groupOutcome_readsSound (hor _ (hafter h).1 (hafter h).2) _
  · rename_i h1 h2 h3 h4 h5 h6
    refine parseKey_readsSound hzero fun b r hrest => ⟨hspace b r hrest, ?_⟩
    rcases hop : isOperator b with _ | _
    · rfl
    · simp only [isOperator, Bool.or_eq_true, beq_iff_eq] at hop
      rcases hop with ((((rfl | rfl) | rfl) | rfl) | rfl) | rfl
      · exact (h1 r hrest).elim
      · exact (h2 r hrest).elim
      · exact (h3 r hrest).elim
      · exact (h4 r hrest).elim
      · exact (h5 r hrest).elim
      · exact (h6 r hrest).elim

/-- Whatever is read is a sound key. -/
theorem parse_readsSound (n : Nat) (c : Cursor) (hn : c.rest.length < n) (hzero : 0 ∉ c.rest) :
    ReadsSound ctx (fun key => key.isOr || key.isAnd) (outcome (parseNot ctx c)) ∧
      ReadsSound ctx Key.isOr (outcome (parseAnd ctx c)) ∧
      ReadsSound ctx (fun _ => false) (outcome (parseOr ctx c)) := by
  induction n generalizing c with
  | zero => exact absurd hn (Nat.not_lt_zero _)
  | succ n ih =>
    have hnot :
        ReadsSound ctx (fun key => key.isOr || key.isAnd) (outcome (parseNot ctx c)) := by
      rw [outcome_parseNot]
      refine notOutcome_readsSound (n := n) ?_ (not_mem_skipSpace hzero)
        (fun b r => skipSpace_head c) (fun c' hc' hz => (ih c' hc' hz).1)
        (fun c' hc' hz => (ih c' hc' hz).2.2)
      exact Nat.le_trans c.skipSpace_length (Nat.le_of_lt_succ hn)
    have hand : ReadsSound ctx Key.isOr (outcome (parseAnd ctx c)) := by
      rw [outcome_parseAnd]
      refine proceed_readsSound hnot (fun key next h => Nat.lt_of_lt_of_le (outcome_length h)
        (Nat.le_of_lt_succ hn)) (fun c' hc' hz => (ih c' hc' hz).2.1) (fun _ _ _ => rfl) ?_ ?_
      · intro pos left right last hl hr
        refine ⟨hl, ?_⟩
        change right.Sound ctx.knows ((last && true) && _)
        rwa [Bool.and_true]
      · intro key last h
        rcases hkey : key.isOr with _ | _
        · rw [hkey, Bool.false_or] at h
          rcases hkey' : key.isAnd with _ | _
          · rwa [hkey'] at h
          · rw [hkey', Bool.not_true, Bool.and_false] at h
            exact h.mono _
        · rwa [hkey] at h
    refine ⟨hnot, hand, ?_⟩
    rw [outcome_parseOr]
    refine proceed_readsSound hand (fun key next h => Nat.lt_of_lt_of_le (outcome_length h)
      (Nat.le_of_lt_succ hn)) (fun c' hc' hz => (ih c' hc' hz).2.2) (fun _ _ _ => rfl) ?_ ?_
    · exact fun pos left right last hl hr => ⟨hl, hr⟩
    · intro key last h
      rcases hkey : key.isOr with _ | _
      · rwa [hkey] at h
      · rw [hkey, Bool.not_true, Bool.and_false] at h
        exact h.mono _

theorem parse_sound {source : Bytes} {key : Key} (h : Key.parse ctx source = .ok (some key))
    (hzero : 0 ∉ source) (hlocks : ∀ s ∈ key.lockNames, Key.IsLockName s) :
    key.Sound ctx.knows true := by
  rw [Key.parse, parseAll] at h
  generalize hstart : Cursor.skipSpace ⟨0, source, []⟩ = start at h
  have hzero' : 0 ∉ start.rest := hstart ▸ not_mem_skipSpace (c := ⟨0, source, []⟩) hzero
  dsimp only at h
  split at h
  · rename_i key' asked hkey
    cases h
    split at hkey
    · cases hkey
    · split at hkey
      · cases hkey
      · rename_i r hr
        have hsound : ReadsSound ctx (fun _ => false) (outcome (parseOr ctx start)) :=
          (parse_readsSound _ start (Nat.lt_succ_self _) hzero').2.2
        split at hkey
        · rename_i hlast
          cases hkey
          have := (hsound r.key r.next (by rw [hr]; rfl) hlocks).2
          rwa [hlast] at this
        · cases hkey
  · cases h

end Parser
end Locksmith
