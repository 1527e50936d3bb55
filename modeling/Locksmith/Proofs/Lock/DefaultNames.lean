import Locksmith.Lock.Compile
import Locksmith.Proofs.Lock.Acceptance

namespace Locksmith

def ParseContext.ofType (ctx : ParseContext) (lockType : Bytes) : ParseContext :=
  { ctx with lockType }

namespace Key

/-- The same keys, but that `m` stands in the first and `n` in the second for locks that are not
named. -/
inductive SameBut (m n : Bytes) : Key → Key → Prop where
  | same (key : Key) : SameBut m n key key
  | unnamed (pos : Nat) (d : Dbref) : SameBut m n (.indirect pos d m) (.indirect pos d n)
  | not (pos : Nat) {a a' : Key} (operand : SameBut m n a a') :
      SameBut m n (.not pos a) (.not pos a')
  | and (pos : Nat) {a a' b b' : Key} (left : SameBut m n a a') (right : SameBut m n b b') :
      SameBut m n (.and pos a b) (.and pos a' b')
  | or (pos : Nat) {a a' b b' : Key} (left : SameBut m n a a') (right : SameBut m n b b') :
      SameBut m n (.or pos a b) (.or pos a' b')

theorem SameBut.objects {m n : Bytes} {a b : Key} (h : SameBut m n a b) :
    Assembly.objects a = Assembly.objects b := by
  induction h with
  | same key => rfl
  | unnamed pos d => rfl
  | not pos _ ih => exact ih
  | and pos _ _ ihl ihr => rw [Assembly.objects, Assembly.objects, ihl, ihr]
  | or pos _ _ ihl ihr => rw [Assembly.objects, Assembly.objects, ihl, ihr]

end Key

namespace Parser

variable {β γ : Type} {m n : Bytes} {x x' : Except Failure (Key × β)} {c : Cursor}

/-- Two readings with the same mistake, or of the same keys but for locks that are not named. -/
inductive Abreast (m n : Bytes) :
    Except Failure (Key × β) → Except Failure (Key × β) → Prop where
  | failed (e : Failure) : Abreast m n (.error e) (.error e)
  | read {key key' : Key} (same : key.SameBut m n key') (after : β) :
      Abreast m n (.ok (key, after)) (.ok (key', after))

namespace Abreast

theorem refl (x : Except Failure (Key × β)) : Abreast m n x x := by
  rcases x with e | ⟨key, after⟩
  · exact .failed e
  · exact .read (.same key) after

theorem map (h : Abreast m n x x') {f f' : Key → Key}
    (hf : ∀ a a', Key.SameBut m n a a' → (f a).SameBut m n (f' a'))
    (g : β → γ) :
    Abreast m n (x.map fun p => (f p.1, g p.2)) (x'.map fun p => (f' p.1, g p.2)) := by
  cases h with
  | failed e => exact .failed e
  | read same after => exact .read (hf _ _ same) (g after)

theorem bind (h : Abreast m n x x') {f f' : Key × β → Except Failure (Key × γ)}
    (hf : ∀ key key' after, x = .ok (key, after) → key.SameBut m n key' →
      Abreast m n (f (key, after)) (f' (key', after))) : Abreast m n (x >>= f) (x' >>= f') := by
  cases h with
  | failed e => exact .failed e
  | read same after => exact hf _ _ after rfl same

end Abreast

variable {ctx : ParseContext}

/-- The lock that is not named is the only one that the type of a lock says something about. -/
theorem readIndirect_abreast (hm : m ≠ []) (hn : n ≠ []) (pos : Nat) (c : Cursor)
    (text : Bytes) :
    Abreast m n
      ((readIndirect (ctx.ofType m) c text).map fun (id, lock, asked) =>
        (Key.indirect pos id lock, asked))
      ((readIndirect (ctx.ofType n) c text).map fun (id, lock, asked) =>
        (Key.indirect pos id lock, asked)) := by
  have hnamed (object lock : Bytes) :
      Abreast m n
        ((if (if lock.isEmpty then m else lock).isEmpty then c.fail (.needsLockName object)
          else (resolve ctx c object).map fun p =>
            (p.1, if lock.isEmpty then m else lock, p.2)).map
            fun q => (Key.indirect pos q.1 q.2.1, q.2.2))
        ((if (if lock.isEmpty then n else lock).isEmpty then c.fail (.needsLockName object)
          else (resolve ctx c object).map fun p =>
            (p.1, if lock.isEmpty then n else lock, p.2)).map
            fun q => (Key.indirect pos q.1 q.2.1, q.2.2)) := by
    by_cases hlock : lock.isEmpty = true
    · simp only [if_pos hlock]
      rw [if_neg (by rwa [List.isEmpty_iff]), if_neg (by rwa [List.isEmpty_iff])]
      rcases resolve ctx c object with e | ⟨id, asked⟩
      · exact .failed e
      · exact .read (.unnamed pos id) asked
    · simp only [if_neg hlock]
      exact .refl _
  rw [readIndirect, readIndirect]
  rcases Escape.cut (· == 47) text with _ | ⟨before, slash, after⟩
  · exact hnamed _ _
  · exact hnamed _ _

theorem operandOutcome_abreast {operator : UInt8} {after : Bytes}
    {read read' : Cursor → Bytes → Except Failure (Key × List Bytes)}
    (h : ∀ start text, Abreast m n (read start text) (read' start text)) :
    Abreast m n (operandOutcome c operator after read)
      (operandOutcome c operator after read') := by
  unfold operandOutcome
  dsimp only
  split
  · exact .refl _
  · split
    · exact .refl _
    · exact (h _ _).map (fun _ _ hsame => hsame) _

theorem notOutcome_abreast (hm : m ≠ []) (hn : n ≠ [])
    (hnot : ∀ c' : Cursor, c'.rest.length < c.rest.length →
      Abreast m n (readNot (ctx.ofType m) c') (readNot (ctx.ofType n) c'))
    (hor : ∀ c' : Cursor, c'.rest.length < c.rest.length →
      Abreast m n (readOr (ctx.ofType m) c') (readOr (ctx.ofType n) c')) :
    Abreast m n (notOutcome (ctx.ofType m) c c.rest) (notOutcome (ctx.ofType n) c c.rest) := by
  have hshort {b : UInt8} {after : Bytes} (hc : c.rest = b :: after) :
      after.length < c.rest.length := by
    rw [hc, List.length_cons]
    exact Nat.lt_succ_self _
  unfold notOutcome
  split
  · rename_i after hc
    exact (hnot _ (hshort hc)).map (fun _ _ hsame => .not _ hsame) id
  · rename_i after hc
    exact operandOutcome_abreast fun start text => readIndirect_abreast hm hn c.pos start text
  · exact .refl _
  · exact .refl _
  · exact .refl _
  · rename_i after hc
    refine (hor _ (hshort hc)).bind ?_
    rintro key key' next - hsame
    unfold closeOutcome
    dsimp only
    split
    · exact .read hsame _
    · exact .failed _
  · rw [outcome_parseKey, outcome_parseKey]
    exact .refl _

theorem proceed_abreast {operator : UInt8} {make : Nat → Key → Key → Key}
    {first first' : Except Failure (Key × Cursor)}
    {more more' : Cursor → Except Failure (Key × Cursor)}
    (hmake : ∀ pos a a' b b', Key.SameBut m n a a' → Key.SameBut m n b b' →
      (make pos a b).SameBut m n (make pos a' b'))
    (hfirst : Abreast m n first first')
    (hlength : ∀ key next, first = .ok (key, next) → next.rest.length < c.rest.length)
    (hmore : ∀ c' : Cursor, c'.rest.length < c.rest.length → Abreast m n (more c') (more' c')) :
    Abreast m n (first >>= fun p => proceed operator make more p.1 p.2)
      (first' >>= fun p => proceed operator make more' p.1 p.2) := by
  apply hfirst.bind
  intro left left' mid hleft hsame
  dsimp only
  by_cases hhit : ∃ after, mid.skipSpace.rest = operator :: after
  · obtain ⟨after, hhit⟩ := hhit
    have hshort : after.length < c.rest.length := by
      have hskip := mid.skipSpace_length
      have := hlength left mid hleft
      rw [hhit, List.length_cons] at hskip
      omega
    rw [proceed_hit hhit, proceed_hit hhit]
    exact (hmore _ hshort).map (fun _ _ hright => hmake _ _ _ _ _ hsame hright) id
  · have hmiss : ∀ after, mid.skipSpace.rest ≠ operator :: after := fun after hafter =>
      hhit ⟨after, hafter⟩
    rw [proceed_miss hmiss, proceed_miss hmiss]
    exact .read hsame _

/-- One text is read as two types of lock. -/
theorem read_abreast (ctx : ParseContext) (hm : m ≠ []) (hn : n ≠ []) (k : Nat) (c : Cursor)
    (hk : c.rest.length < k) :
    Abreast m n (readNot (ctx.ofType m) c) (readNot (ctx.ofType n) c) ∧
      Abreast m n (readAnd (ctx.ofType m) c) (readAnd (ctx.ofType n) c) ∧
      Abreast m n (readOr (ctx.ofType m) c) (readOr (ctx.ofType n) c) := by
  -- as in reading itself, the text gets shorter or the level tighter
  induction k generalizing c with
  | zero => exact absurd hk (Nat.not_lt_zero _)
  | succ k ih =>
    have hshort {c' : Cursor} (hc' : c'.rest.length < c.rest.length) :
        c'.rest.length < k := by omega
    have hskip := c.skipSpace_length
    have hnot : Abreast m n (readNot (ctx.ofType m) c) (readNot (ctx.ofType n) c) := by
      rw [readNot, readNot, outcome_parseNot, outcome_parseNot]
      exact notOutcome_abreast hm hn (fun c' hc' => (ih c' (hshort (hc'.trans_le hskip))).1)
        fun c' hc' => (ih c' (hshort (hc'.trans_le hskip))).2.2
    have hand : Abreast m n (readAnd (ctx.ofType m) c) (readAnd (ctx.ofType n) c) := by
      rw [readAnd, readAnd, outcome_parseAnd, outcome_parseAnd]
      exact proceed_abreast (fun pos _ _ _ _ => .and pos) hnot (fun _ _ => outcome_length)
        fun c' hc' => (ih c' (hshort hc')).2.1
    refine ⟨hnot, hand, ?_⟩
    rw [readOr, readOr, outcome_parseOr, outcome_parseOr]
    exact proceed_abreast (fun pos _ _ _ _ => .or pos) hand (fun _ _ => outcome_length)
      fun c' hc' => (ih c' (hshort hc')).2.2

end Parser

namespace Key

/-- The type of a lock decides neither whether its text can be read nor what is wrong with it.
-/
theorem parse_ofType (ctx : ParseContext) {m n : Bytes} (hm : m ≠ []) (hn : n ≠ [])
    (source : Bytes) :
    (∃ x, parse (ctx.ofType m) source = x ∧ parse (ctx.ofType n) source = x) ∨
      ∃ key key', key.SameBut m n key' ∧ parse (ctx.ofType m) source = .ok (some key) ∧
        parse (ctx.ofType n) source = .ok (some key') := by
  by_cases hblank : Escape.Blank source
  · exact .inl ⟨.ok none, Grammar.parse_of_blank hblank, Grammar.parse_of_blank hblank⟩
  · have hread := (Parser.read_abreast ctx hm hn _ ⟨0, source, []⟩ (Nat.lt_succ_self _)).2.2
    rw [Grammar.parse_eq hblank, Grammar.parse_eq hblank]
    generalize Parser.readOr (ctx.ofType m) ⟨0, source, []⟩ = x at hread ⊢
    generalize Parser.readOr (ctx.ofType n) ⟨0, source, []⟩ = x' at hread ⊢
    cases hread with
    | failed e => exact .inl ⟨_, rfl, rfl⟩
    | read same next =>
      dsimp only
      rcases next.skipSpace.rest with _ | ⟨b, r⟩
      · exact .inr ⟨_, _, same, rfl, rfl⟩
      · exact .inl ⟨_, rfl, rfl⟩

end Key

namespace Lock

variable {m n : Bytes}

/-- The same outcome of compiling, but that `m` and `n` stand for locks that are not named. -/
inductive SameCode (m n : Bytes) :
    Except CompileError LockCode → Except CompileError LockCode → Prop where
  | equal (x : Except CompileError LockCode) : SameCode m n x x
  | spelled {key key' : Key} {code code' : LockCode} (same : key.SameBut m n key')
      (compiled : ofKey (some key) = .ok code) (compiled' : ofKey (some key') = .ok code') :
      SameCode m n (.ok code) (.ok code')

theorem ofKey_sameBut {key key' : Key} (h : key.SameBut m n key') :
    (∃ d, ofKey (some key) = .error d ∧ ofKey (some key') = .error d) ∨
      ∃ code code', ofKey (some key) = .ok code ∧ ofKey (some key') = .ok code' := by
  have hall {key : Key} (hnone : (Assembly.objects key).find? (!·.fitsOperand) = none) :
      ∃ code, ofKey (some key) = .ok code := by
    rw [ofKey, Assembly.ofKey, hnone]
    exact ⟨_, rfl⟩
  have hwide {key : Key} {d : Dbref}
      (hsome : (Assembly.objects key).find? (!·.fitsOperand) = some d) :
      ofKey (some key) = .error d := by
    rw [ofKey, Assembly.ofKey, hsome]
    rfl
  rcases hfound : (Assembly.objects key).find? (!·.fitsOperand) with _ | d
  · obtain ⟨code, hcode⟩ := hall hfound
    obtain ⟨code', hcode'⟩ := hall (h.objects ▸ hfound)
    exact .inr ⟨code, code', hcode, hcode'⟩
  · exact .inl ⟨d, hwide hfound, hwide (h.objects ▸ hfound)⟩

theorem compileWith_ofType (ctx : ParseContext) (hm : m ≠ []) (hn : n ≠ []) (source : Bytes) :
    SameCode m n (compileWith (ctx.ofType m) source) (compileWith (ctx.ofType n) source) := by
  rcases Key.parse_ofType ctx hm hn source with ⟨x, hx, hx'⟩ | ⟨key, key', hsame, hkey, hkey'⟩
  · rw [compileWith, compileWith, hx, hx']
    exact .equal _
  · rw [compileWith, compileWith, hkey, hkey']
    dsimp only
    rcases ofKey_sameBut hsame with ⟨d, hd, hd'⟩ | ⟨code, code', hcode, hcode'⟩
    · rw [hd, hd']
      exact .equal _
    · rw [hcode, hcode']
      exact .spelled hsame hcode hcode'

end Lock
end Locksmith
