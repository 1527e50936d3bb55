import Locksmith.Proofs.Chunk.Ledger

namespace Locksmith
namespace Chunk

namespace History

/-- A call handed out a reference. -/
def Given (h : History) (r : ChunkRef) : Prop := ∃ c, (c, .ok (.ref r)) ∈ h

def Deleted (h : History) (r : ChunkRef) : Prop := (.delete r, .ok .done) ∈ h

def Live (h : History) (r : ChunkRef) : Prop := h.Given r ∧ ¬h.Deleted r

/-- A reference is larger than those that were handed out before, and not zero. -/
def Fresh (h : History) (r : ChunkRef) : Prop := r.num ≠ 0 ∧ ∀ r', h.Given r' → r'.num < r.num

/-- The content with which the chunk was created that a reference is a copy of, by any number of
copies. -/
inductive Origin (h : History) : ChunkRef → Bytes → Prop where
  | created {r : ChunkRef} {d : Option Bytes} (made : (.create d, .ok (.ref r)) ∈ h) :
      Origin h r (d.getD [])
  | copied {r r' : ChunkRef} {b : Bytes} (made : (.duplicate r, .ok (.ref r')) ∈ h)
      (first : Origin h r b) :
    Origin h r' b

/-- What a call may give after the calls of a history. -/
def Allows (h : History) : Call → Except Error Answer → Prop
  | .create d, a =>
    if 2 ^ 20 < (d.getD []).length then a = .error (.packing (.tooLarge (d.getD []).length))
    else ∃ r, h.Fresh r ∧ a = .ok (.ref r)
  | .fetch r, a =>
    h.Live r ∧ (∃ d, (∀ b, h.Origin r b ↔ b = d.getD []) ∧ a = .ok (.data d)) ∨
      ¬h.Live r ∧ a = .error (.notFound .fetching r)
  | .delete r, a => h.Live r ∧ a = .ok .done ∨ ¬h.Live r ∧ a = .error (.notFound .deleting r)
  | .duplicate r, a =>
    h.Live r ∧ (∃ r', h.Fresh r' ∧ a = .ok (.ref r')) ∨ ¬h.Live r ∧
    a = .error (.notFound .duplicating r)

variable {h : History} {c : Call} {a : Except Error Answer} {r : ChunkRef} {b : Bytes}

theorem given_snoc : Given (h ++ [(c, a)]) r ↔ h.Given r ∨ a = .ok (.ref r) := by
  constructor
  · rintro ⟨c', hmem⟩
    rcases List.mem_append.1 hmem with hmem | hmem
    · exact .inl ⟨c', hmem⟩
    · cases List.mem_singleton.1 hmem
      exact .inr rfl
  · rintro (⟨c', hmem⟩ | rfl)
    · exact ⟨c', List.mem_append_left _ hmem⟩
    · exact ⟨c, List.mem_append_right _ (List.mem_singleton.2 rfl)⟩

theorem deleted_snoc :
    Deleted (h ++ [(c, a)]) r ↔ h.Deleted r ∨ c = .delete r ∧ a = .ok .done := by
  simp only [Deleted, List.mem_append, List.mem_singleton, Prod.mk.injEq, eq_comm (b := c),
    eq_comm (b := a)]

theorem Origin.snoc (ho : h.Origin r b) (e : Call × Except Error Answer) :
    Origin (h ++ [e]) r b := by
  induction ho with
  | created made => exact .created (List.mem_append_left _ made)
  | copied made _ ih => exact .copied (List.mem_append_left _ made) ih

end History

/-- A ledger keeps what a history tells: `first` gives the content that each reference goes back
to. -/
structure Ledger.Tells (m : Ledger) (h : History) (first : ChunkRef → Option Bytes) : Prop where
  given : ∀ r, h.Given r ↔ (first r).isSome
  numbered : ∀ r, (first r).isSome ↔ 0 < r.num.toNat ∧ r.num.toNat ≤ m.given
  deleted : ∀ r, h.Deleted r → (first r).isSome
  created : ∀ d r, (.create d, .ok (.ref r)) ∈ h → first r = some (d.getD [])
  copied : ∀ r r', (.duplicate r, .ok (.ref r')) ∈ h → first r' = first r
  origin : ∀ r b, first r = some b → h.Origin r b
  live : ∀ r, (m.kept r).isSome ↔ h.Live r
  content : ∀ r d, m.kept r = some d → first r = some (d.getD [])

namespace Ledger.Tells

variable {m : Ledger} {h : History} {first : ChunkRef → Option Bytes} {c : Call} {r : ChunkRef}

theorem origin_iff (t : m.Tells h first) {b : Bytes} : h.Origin r b ↔ first r = some b := by
  constructor
  · intro ho
    induction ho with
    | created made => exact t.created _ _ made
    | copied made _ ih => rw [t.copied _ _ made, ih]
  · exact t.origin r b

theorem empty : Ledger.empty.Tells [] fun _ => none where
  given r := by
    constructor
    · rintro ⟨c, hc⟩
      cases hc
    · intro hr
      cases hr
  numbered r := by
    constructor
    · intro hr
      cases hr
    · rintro ⟨hpos, hle⟩
      exact absurd (hpos.trans_le hle) (Nat.lt_irrefl 0)
  deleted r hr := by cases hr
  created d r hr := by cases hr
  copied r r' hr := by cases hr
  origin r b hr := by cases hr
  live r := by
    constructor
    · intro hr
      cases hr
    · rintro ⟨⟨c, hc⟩, -⟩
      cases hc
  content r d hr := by cases hr

/-- A call that hands out nothing and deletes nothing. -/
theorem quiet (t : m.Tells h first) {a : Except Error Answer} (hgive : ∀ r, a ≠ .ok (.ref r))
    (hdone : a ≠ .ok .done) : m.Tells (h ++ [(c, a)]) first where
  given r := by simpa only [History.given_snoc, hgive r, or_false] using t.given r
  numbered := t.numbered
  deleted r hr := by
    rcases History.deleted_snoc.1 hr with hr | ⟨-, hr⟩
    · exact t.deleted r hr
    · exact absurd hr hdone
  created d r hr := by
    rcases List.mem_append.1 hr with hr | hr
    · exact t.created d r hr
    · cases List.mem_singleton.1 hr
      exact absurd rfl (hgive r)
  copied r r' hr := by
    rcases List.mem_append.1 hr with hr | hr
    · exact t.copied r r' hr
    · cases List.mem_singleton.1 hr
      exact absurd rfl (hgive r')
  origin r b hr := (t.origin r b hr).snoc _
  live r := by
    simpa only [History.Live, History.given_snoc, History.deleted_snoc, hgive r, hdone,
      and_false, or_false] using t.live r
  content := t.content

theorem toNat_next (hroom : m.given + 1 < 2 ^ 64) : m.next.num.toNat = m.given + 1 :=
  UInt64.toNat_ofNat_of_lt' hroom

theorem first_next (t : m.Tells h first) (hroom : m.given + 1 < 2 ^ 64) :
    first m.next = none := by
  rcases hfirst : first m.next with _ | b
  · rfl
  · have hnumber := (t.numbered m.next).1 (by rw [hfirst]; rfl)
    rw [toNat_next hroom] at hnumber
    omega

/-- The next reference was not handed out before. -/
theorem fresh (t : m.Tells h first) (hroom : m.given + 1 < 2 ^ 64) : h.Fresh m.next := by
  constructor
  · intro hzero
    have hnext := toNat_next hroom
    rw [hzero] at hnext
    cases hnext
  · intro r hr
    have hnumber := (t.numbered r).1 ((t.given r).1 hr)
    rw [UInt64.lt_iff_toNat_lt, toNat_next hroom]
    omega

/-- References that were handed out before keep their origin. -/
theorem update_first (t : m.Tells h first) (hroom : m.given + 1 < 2 ^ 64) {b : Bytes}
    (hr : (first r).isSome) :
    Function.update first m.next (some b) r = first r := by
  apply Function.update_of_ne
  rintro rfl
  rw [t.first_next hroom] at hr
  cases hr

theorem isSome_update_first {b : Bytes} :
    (Function.update first m.next (some b) r).isSome ↔ (first r).isSome ∨ r = m.next := by
  by_cases hr : r = m.next
  · simp [hr]
  · simp [hr]

theorem not_deleted_next (t : m.Tells h first) (hroom : m.given + 1 < 2 ^ 64) :
    ¬h.Deleted m.next := by
  intro hdeleted
  have hsome := t.deleted _ hdeleted
  rw [t.first_next hroom] at hsome
  cases hsome

/-- A call that hands out the next reference, for content that it was given or that it copied.
-/
theorem put (t : m.Tells h first) (hroom : m.given + 1 < 2 ^ 64) {d : Option Bytes}
    (hc : (∃ d', c = .create d' ∧ d'.getD [] = d.getD []) ∨ ∃ r, c = .duplicate r ∧
      first r = some (d.getD [])) :
    (m.put d).Tells (h ++ [(c, .ok (.ref m.next))])
    (Function.update first m.next (some (d.getD []))) := by
  constructor
  case given =>
    intro r
    rw [History.given_snoc, t.given r, isSome_update_first, Except.ok.injEq, Answer.ref.injEq,
      eq_comm (a := r)]
  case numbered =>
    intro r
    rw [isSome_update_first, t.numbered r]
    constructor
    · rintro (⟨hpos, hle⟩ | rfl)
      · exact ⟨hpos, hle.trans (Nat.le_succ _)⟩
      · rw [toNat_next hroom]
        exact ⟨Nat.succ_pos _, Nat.le_refl _⟩
    · rintro ⟨hpos, hle⟩
      rcases Nat.le_succ_iff.1 hle with hle | heq
      · exact .inl ⟨hpos, hle⟩
      · right
        exact congrArg ChunkRef.mk (UInt64.toNat_inj.1 (heq.trans (toNat_next hroom).symm))
  case deleted =>
    intro r hr
    rcases History.deleted_snoc.1 hr with hr | ⟨-, hr⟩
    · exact isSome_update_first.2 (.inl (t.deleted r hr))
    · cases hr
  case created =>
    intro d' r hr
    rcases List.mem_append.1 hr with hr | hr
    · have hfirst := t.created d' r hr
      rw [t.update_first hroom (by rw [hfirst]; rfl), hfirst]
    · cases List.mem_singleton.1 hr
      rw [Function.update_self]
      rcases hc with ⟨d', heq, hsame⟩ | ⟨r, heq, -⟩
      · cases heq
        rw [hsame]
      · cases heq
  case copied =>
    intro r r' hr
    rcases List.mem_append.1 hr with hr | hr
    · have hcopy := t.copied r r' hr
      have hsome : (first r').isSome := (t.given r').1 ⟨_, hr⟩
      rw [t.update_first hroom hsome, t.update_first hroom (hcopy ▸ hsome), hcopy]
    · cases List.mem_singleton.1 hr
      rw [Function.update_self]
      rcases hc with ⟨d', heq, -⟩ | ⟨r, heq, hfirst⟩
      · cases heq
      · cases heq
        rw [t.update_first hroom (by rw [hfirst]; rfl), hfirst]
  case origin =>
    intro r b hr
    by_cases hrn : r = m.next
    · subst hrn
      rw [Function.update_self] at hr
      cases hr
      have hlast : (c, .ok (.ref m.next)) ∈ h ++ [(c, .ok (.ref m.next))] :=
        List.mem_append_right _ (List.mem_singleton.2 rfl)
      rcases hc with ⟨d', rfl, hsame⟩ | ⟨r, rfl, hfirst⟩
      · rw [← hsame]
        exact .created hlast
      · exact .copied hlast ((t.origin r _ hfirst).snoc _)
    · rw [Function.update_of_ne hrn] at hr
      exact (t.origin r b hr).snoc _
  case live =>
    intro r
    simp only [History.Live, History.given_snoc, History.deleted_snoc]
    by_cases hr : r = m.next
    · rw [hr, m.kept_put_next]
      simp [t.not_deleted_next hroom]
    · rw [kept_put_of_ne hr, t.live r, History.Live]
      simp [Ne.symm hr]
  case content =>
    intro r d' hr
    by_cases hrn : r = m.next
    · subst hrn
      rw [m.kept_put_next] at hr
      cases hr
      exact Function.update_self _ _ _
    · rw [kept_put_of_ne hrn] at hr
      rw [Function.update_of_ne hrn, t.content r d' hr]

/-- A call that deletes what it names. -/
theorem drop (t : m.Tells h first) (hr : (m.kept r).isSome) :
    (m.drop r).Tells (h ++ [(.delete r, .ok .done)]) first where
  given r' := by
    simpa only [History.given_snoc, reduceCtorEq, Except.ok.injEq, or_false] using t.given r'
  numbered := t.numbered
  deleted r' hdel := by
    rcases History.deleted_snoc.1 hdel with hdel | ⟨heq, -⟩
    · exact t.deleted r' hdel
    · cases heq
      exact (t.given r).1 ((t.live r).1 hr).1
  created d r' hmem := by
    rcases List.mem_append.1 hmem with hmem | hmem
    · exact t.created d r' hmem
    · cases List.mem_singleton.1 hmem
  copied r₁ r₂ hmem := by
    rcases List.mem_append.1 hmem with hmem | hmem
    · exact t.copied r₁ r₂ hmem
    · cases List.mem_singleton.1 hmem
  origin r' b hfirst := (t.origin r' b hfirst).snoc _
  live r' := by
    simp only [History.Live, History.given_snoc, History.deleted_snoc]
    by_cases hne : r' = r
    · simp [hne, m.kept_drop_self]
    · rw [m.kept_drop_of_ne hne, t.live r', History.Live]
      simp [Ne.symm hne]
  content r' d hkept := by
    by_cases hne : r' = r
    · rw [hne, m.kept_drop_self] at hkept
      cases hkept
    · rw [m.kept_drop_of_ne hne] at hkept
      exact t.content r' d hkept

/-- The references under which something is kept are those that are live. -/
theorem cases (t : m.Tells h first) (r : ChunkRef) :
    (h.Live r ∧ ∃ d, m.kept r = some d) ∨ (¬h.Live r ∧ m.kept r = none) := by
  have hlive := t.live r
  rcases hkept : m.kept r with _ | d
  · rw [hkept] at hlive
    exact .inr ⟨fun hr => Bool.noConfusion (hlive.2 hr), rfl⟩
  · rw [hkept] at hlive
    exact .inl ⟨hlive.1 rfl, d, rfl⟩

/-- What a ledger gives is what the calls before tell. -/
theorem allows (t : m.Tells h first) (hroom : m.given + 1 < 2 ^ 64) (medium : Medium)
    (c : Call) : h.Allows c (m.call medium c).1 := by
  cases c with
  | create d =>
    have hmax : 2 ^ 20 = maxChunkSize := rfl
    simp only [History.Allows, Ledger.call, hmax]
    split
    · rfl
    · exact ⟨m.next, t.fresh hroom, rfl⟩
  | fetch r =>
    simp only [History.Allows, Ledger.call]
    obtain ⟨hlive, d, hkept⟩ | ⟨hdead, hkept⟩ := t.cases r
    · rw [hkept]
      refine .inl ⟨hlive, d, fun b => ?_, rfl⟩
      rw [t.origin_iff, t.content r d hkept, Option.some.injEq, eq_comm]
    · rw [hkept]
      exact .inr ⟨hdead, rfl⟩
  | delete r =>
    simp only [History.Allows, Ledger.call]
    obtain ⟨hlive, d, hkept⟩ | ⟨hdead, hkept⟩ := t.cases r
    · rw [hkept]
      exact .inl ⟨hlive, rfl⟩
    · rw [hkept]
      exact .inr ⟨hdead, rfl⟩
  | duplicate r =>
    simp only [History.Allows, Ledger.call]
    obtain ⟨hlive, d, hkept⟩ | ⟨hdead, hkept⟩ := t.cases r
    · rw [hkept]
      exact .inl ⟨hlive, m.next, t.fresh hroom, rfl⟩
    · rw [hkept]
      exact .inr ⟨hdead, rfl⟩

theorem call (t : m.Tells h first) (hroom : m.given + 1 < 2 ^ 64) (medium : Medium) (c : Call) :
    ∃ first', (m.call medium c).2.Tells (h ++ [(c, (m.call medium c).1)]) first' := by
  have hfailed (e : Error) : m.Tells (h ++ [(c, .error e)]) first := by
    apply t.quiet
    · intro r heq
      cases heq
    · intro heq
      cases heq
  cases c with
  | create d =>
    simp only [Ledger.call]
    split
    · exact ⟨first, hfailed _⟩
    · exact ⟨_, t.put hroom (.inl ⟨d, rfl, (medium.getD_keep d).symm⟩)⟩
  | fetch r =>
    simp only [Ledger.call]
    rcases m.kept r with _ | d
    · exact ⟨first, hfailed _⟩
    · refine ⟨first, t.quiet ?_ ?_⟩
      · intro r heq
        cases heq
      · intro heq
        cases heq
  | delete r =>
    simp only [Ledger.call]
    rcases hkept : m.kept r with _ | d
    · exact ⟨first, hfailed _⟩
    · exact ⟨first, t.drop (by rw [hkept]; rfl)⟩
  | duplicate r =>
    simp only [Ledger.call]
    rcases hkept : m.kept r with _ | d
    · exact ⟨first, hfailed _⟩
    · have hfirst := t.content r d hkept
      rw [← medium.getD_copy d] at hfirst
      exact ⟨_, t.put hroom (.inr ⟨r, rfl, hfirst⟩)⟩

theorem run (t : m.Tells h first) (medium : Medium) {calls : List Call}
    (hroom : m.given + calls.length < 2 ^ 64) :
    ∃ first', (m.after medium calls).Tells (h ++ m.history medium calls) first' := by
  induction calls generalizing m h first with
  | nil =>
    rw [history, List.append_nil]
    exact ⟨first, t⟩
  | cons c rest ih =>
    rw [List.length_cons] at hroom
    have hgiven := m.given_call medium c
    obtain ⟨first', t'⟩ := t.call (by omega) medium c
    obtain ⟨last, hlast⟩ := ih t' (by omega)
    rw [List.append_assoc, List.singleton_append] at hlast
    exact ⟨last, hlast⟩

end Ledger.Tells

namespace Store

/-- A call hands out or deletes nothing but what it says. -/
theorem fetch_call_of_ne (s : Store) {c : Call} {r : ChunkRef} (hdelete : c ≠ .delete r)
    (hgive : (s.call c).1 ≠ .ok (.ref r)) : (s.call c).2.fetch r = s.fetch r := by
  have happend {p : Packed} (hne : s.next ≠ r) : (s.append p).2.fetch r = s.fetch r := by
    rw [fetch, fetch, append, SortedMap.get?_insert_of_ne _ _ hne.symm]
  cases c with
  | create d =>
    rw [Store.call] at hgive ⊢
    rcases hcreate : s.create d with e | ⟨r', s'⟩
    · rfl
    · obtain ⟨p, -, heq⟩ := append_of_create hcreate
      rw [hcreate] at hgive
      cases heq
      exact happend fun hr => hgive (congrArg _ (congrArg _ hr))
  | fetch r' => rfl
  | delete r' =>
    rw [Store.call]
    rcases hdeleted : s.delete r' with e | s'
    · rfl
    · rw [delete] at hdeleted
      split at hdeleted
      · cases hdeleted
        rw [fetch, fetch, SortedMap.get?_erase_of_ne _ fun hr => hdelete (congrArg _ hr.symm)]
      · cases hdeleted
  | duplicate r' =>
    rw [Store.call] at hgive ⊢
    rcases hduplicate : s.duplicate r' with e | ⟨r'', s'⟩
    · rfl
    · obtain ⟨p, q, -, -, heq⟩ := append_of_duplicate hduplicate
      rw [hduplicate] at hgive
      cases heq
      exact happend fun hr => hgive (congrArg _ (congrArg _ hr))

theorem call_of_error {s : Store} {c : Call} {e : Error} (h : (s.call c).1 = .error e) :
    (s.call c).2 = s := by
  cases c with
  | create d =>
    rw [Store.call] at h ⊢
    rcases hcreate : s.create d with e' | x
    · rfl
    · rw [hcreate] at h
      cases h
  | fetch r => rfl
  | delete r =>
    rw [Store.call] at h ⊢
    rcases hdelete : s.delete r with e' | s'
    · rfl
    · rw [hdelete] at h
      cases h
  | duplicate r =>
    rw [Store.call] at h ⊢
    rcases hduplicate : s.duplicate r with e' | x
    · rfl
    · rw [hduplicate] at h
      cases h

/-- A store does what a ledger does after any calls, however it compresses, and media give back
the same contents. The next call gives what the calls before tell, it leaves alone what it does
not name, and it changes nothing if it fails. -/
theorem refines_ledger (medium : Medium) {compression : Compression}
    (hsupported : compression.Supported) {calls : List Call} (hfew : calls.length < 2 ^ 63) :
    let h := (empty medium compression).history calls
    let s := (empty medium compression).after calls
    h = Ledger.empty.history medium calls ∧
    (∀ medium', h.contents = (Ledger.empty.history medium' calls).contents) ∧
    ∀ c, h.Allows c (s.call c).1 ∧
      (∀ r, c ≠ .delete r → (s.call c).1 ≠ .ok (.ref r) → (s.call c).2.fetch r = s.fetch r) ∧
      ∀ e, (s.call c).1 = .error e → (s.call c).2 = s := by
  intro h s
  have hroom : 0 + calls.length + 1 < 2 ^ 64 := by omega
  obtain ⟨hhistory, hrepresents⟩ := (empty_represents medium compression).run hsupported hroom
  obtain ⟨first, htells⟩ := Ledger.Tells.empty.run medium (Nat.lt_of_succ_lt hroom)
  have hmade : (empty medium compression).medium = medium := rfl
  rw [hmade] at hhistory hrepresents
  rw [List.nil_append, ← hhistory] at htells
  obtain ⟨hmedium, hcompression⟩ := (empty medium compression).after_setting calls
  have hgiven : _ ≤ 0 + calls.length := Ledger.empty.given_after medium calls
  refine ⟨hhistory, fun medium' => ?_,
    fun c => ⟨?_, fun r => s.fetch_call_of_ne, fun e => call_of_error⟩⟩
  · have hsame : Ledger.empty.SameContents .empty := ⟨rfl, fun _ => rfl⟩
    exact (congrArg _ hhistory).trans (hsame.history medium medium' calls)
  · have hcall := (hrepresents.call (by rwa [hcompression]) (by omega) c).1
    rw [hcall]
    exact htells.allows (by omega) _ c

/-- Compressed rows: a copy keeps the content that it was made from when the first one is gone.
-/
theorem refines_ledger_copy :
    let data : Bytes := List.replicate 40 1
    let calls : List Call :=
      [.create (some data), .duplicate ⟨1⟩, .delete ⟨1⟩, .fetch ⟨2⟩, .fetch ⟨1⟩]
    Compression.lz4.Supported ∧ calls.length < 2 ^ 63 ∧
      (∃ out, Compression.lz4.compress data = .ok out ∧ out.length < data.length) ∧
      (empty .table .lz4).history calls =
        calls.zip [.ok (.ref ⟨1⟩), .ok (.ref ⟨2⟩), .ok .done, .ok (.data (some data)),
          .error (.notFound .fetching ⟨1⟩)] := by
  intro data calls
  have hsupported : Compression.lz4.Supported := by decide
  have hfew : calls.length < 2 ^ 63 := by decide
  have hsmaller : (Lz4.encode data).length < data.length := by decide +kernel
  refine ⟨hsupported, hfew, ⟨_, if_pos hsmaller, hsmaller⟩, ?_⟩
  exact (refines_ledger .table hsupported hfew).1.trans rfl

end Store
end Chunk
end Locksmith
