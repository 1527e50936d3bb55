import Locksmith.Chunk.Store
import Locksmith.Proofs.Chunk.Packed
import Locksmith.Proofs.Data.SortedMap

namespace Locksmith
namespace Chunk

inductive Call where
  | create (data : Option Bytes)
  | fetch (ref : ChunkRef)
  | delete (ref : ChunkRef)
  | duplicate (ref : ChunkRef)

inductive Answer where
  | ref (r : ChunkRef)
  | data (d : Option Bytes)
  | done

abbrev History := List (Call × Except Error Answer)

/-- The content that an answer shows: absent data is as good as empty data. -/
def Answer.content : Answer → Answer
  | data d => data (some (d.getD []))
  | a => a

def History.contents (h : History) : History := h.map fun e => (e.1, e.2.map Answer.content)

theorem History.contents_cons (c : Call) (a : Except Error Answer) (h : History) :
    contents ((c, a) :: h) = (c, a.map Answer.content) :: h.contents := rfl

def Medium.keep : Medium → Option Bytes → Option Bytes
  | memory, d => d
  | table, d => some (d.getD [])

def Medium.copy : Medium → Option Bytes → Option Bytes
  | memory, d => if d = some [] then none else d
  | table, d => d

theorem Medium.getD_keep (medium : Medium) (d : Option Bytes) :
    (medium.keep d).getD [] = d.getD [] := by
  cases medium <;> rfl

theorem Medium.getD_copy (medium : Medium) (d : Option Bytes) :
    (medium.copy d).getD [] = d.getD [] := by
  cases medium with
  | memory =>
    rw [copy]
    split
    · rename_i hempty
      rw [hempty]
      rfl
    · rfl
  | table => rfl

/-- The numbers handed out so far are those from one to `given`; `kept` tells what is kept under
them. -/
structure Ledger where
  given : Nat
  kept : ChunkRef → Option (Option Bytes)

namespace Ledger

def empty : Ledger := ⟨0, fun _ => none⟩

def next (m : Ledger) : ChunkRef := ⟨UInt64.ofNat (m.given + 1)⟩

def put (m : Ledger) (d : Option Bytes) : Ledger :=
  ⟨m.given + 1, Function.update m.kept m.next (some d)⟩

def drop (m : Ledger) (r : ChunkRef) : Ledger :=
  { m with kept := Function.update m.kept r none }

theorem kept_put_next (m : Ledger) (d : Option Bytes) : (m.put d).kept m.next = some d :=
  Function.update_self _ _ _

theorem kept_put_of_ne {m : Ledger} {r : ChunkRef} (h : r ≠ m.next) (d : Option Bytes) :
    (m.put d).kept r = m.kept r := Function.update_of_ne h _ _

theorem kept_drop_self (m : Ledger) (r : ChunkRef) : (m.drop r).kept r = none :=
  Function.update_self _ _ _

theorem kept_drop_of_ne (m : Ledger) {r r' : ChunkRef} (h : r' ≠ r) :
    (m.drop r).kept r' = m.kept r' :=
  Function.update_of_ne h _ _

def call (medium : Medium) (m : Ledger) : Call → Except Error Answer × Ledger
  | .create d =>
    if maxChunkSize < (d.getD []).length then
      (.error (.packing (.tooLarge (d.getD []).length)), m)
    else (.ok (.ref m.next), m.put (medium.keep d))
  | .fetch r =>
    match m.kept r with
    | none => (.error (.notFound .fetching r), m)
    | some d => (.ok (.data d), m)
  | .delete r =>
    match m.kept r with
    | none => (.error (.notFound .deleting r), m)
    | some _ => (.ok .done, m.drop r)
  | .duplicate r =>
    match m.kept r with
    | none => (.error (.notFound .duplicating r), m)
    | some d => (.ok (.ref m.next), m.put (medium.copy d))

def history (medium : Medium) (m : Ledger) : List Call → History
  | [] => []
  | c :: rest => (c, (m.call medium c).1) :: (m.call medium c).2.history medium rest

def after (medium : Medium) (m : Ledger) (calls : List Call) : Ledger :=
  calls.foldl (fun m c => (m.call medium c).2) m

end Ledger

namespace Store

def call (s : Store) : Call → Except Error Answer × Store
  | .create d =>
    match s.create d with
    | .error e => (.error e, s)
    | .ok (r, s') => (.ok (.ref r), s')
  | .fetch r => ((s.fetch r).map .data, s)
  | .delete r =>
    match s.delete r with
    | .error e => (.error e, s)
    | .ok s' => (.ok .done, s')
  | .duplicate r =>
    match s.duplicate r with
    | .error e => (.error e, s)
    | .ok (r', s') => (.ok (.ref r'), s')

def after (s : Store) (calls : List Call) : Store := calls.foldl (fun s c => (s.call c).2) s

def history (s : Store) : List Call → History
  | [] => []
  | c :: rest => (c, (s.call c).1) :: (s.call c).2.history rest

end Store
end Chunk

namespace Packed

variable {p : Packed} {data : Option Bytes}

/-- A stored chunk stands for `data`. Compressed data is neither absent nor empty. -/
def Holds (p : Packed) (data : Option Bytes) : Prop :=
  p.Keeps (data.getD []) ∧
    (p.compression = .none ∧ p.data = data ∨ p.compression ≠ .none ∧ ∃ b,
      data = some b ∧ b ≠ [])

theorem Holds.unpack (h : p.Holds data) : p.unpack = .ok data := by
  obtain ⟨hkeeps, ⟨hc, hdata⟩ | ⟨hc, b, rfl, -⟩⟩ := h
  · rw [hkeeps.unpack, if_pos hc, hdata]
  · rw [hkeeps.unpack, if_neg hc]
    rfl

theorem holds_of_pack {c : Compression} (h : pack c data = .ok p) : p.Holds data := by
  obtain ⟨-, hkeeps, hstored | ⟨hc, out, -, hshort⟩⟩ := pack_cases h
  · exact ⟨hkeeps, .inl hstored⟩
  · cases data with
    | none => cases hshort
    | some b =>
      refine ⟨hkeeps, .inr ⟨hc, b, rfl, ?_⟩⟩
      rintro rfl
      cases hshort

theorem Holds.present (h : p.Holds data) :
    { p with data := some (p.data.getD []) }.Holds (some (data.getD [])) := by
  obtain ⟨hkeeps, ⟨hc, hdata⟩ | ⟨hc, b, rfl, hb⟩⟩ := h
  · exact ⟨hkeeps, .inl ⟨hc, by rw [hdata]⟩⟩
  · exact ⟨hkeeps, .inr ⟨hc, b, rfl, hb⟩⟩

theorem Holds.copied (h : p.Holds data) :
    (if p.data = some [] then { p with data := none } else p).Holds
    (if data = some [] then none else data) := by
  obtain ⟨hkeeps, ⟨hc, rfl⟩ | ⟨hc, b, rfl, hb⟩⟩ := h
  · split
    · rename_i hempty
      rw [hempty] at hkeeps
      exact ⟨hkeeps.with_data (by rw [hempty]; rfl), .inl ⟨hc, rfl⟩⟩
    · exact ⟨hkeeps, .inl ⟨hc, rfl⟩⟩
  · have hsome : some b ≠ some [] := fun heq => hb (Option.some.inj heq)
    rw [if_neg hsome]
    split
    · rename_i hempty
      exact ⟨hkeeps.with_data (by rw [hempty]; rfl), .inr ⟨hc, b, rfl, hb⟩⟩
    · exact ⟨hkeeps, .inr ⟨hc, b, rfl, hb⟩⟩

end Packed

namespace Chunk
namespace Store

variable {s : Store} {m : Ledger}

/-- What is created is kept under the next reference. -/
theorem append_of_create {d : Option Bytes} {x : ChunkRef × Store} (h : s.create d = .ok x) :
    ∃ p, p.Holds (s.medium.keep d) ∧ x = s.append p := by
  unfold create at h
  rcases hpack : Packed.pack s.compression d with e | p
  · rw [hpack] at h
    cases h
  · rw [hpack] at h
    cases h
    refine ⟨_, ?_, rfl⟩
    have hholds := Packed.holds_of_pack hpack
    cases s.medium with
    | memory => exact hholds
    | table => exact hholds.present

/-- A copy is kept under the next reference. -/
theorem append_of_duplicate {r : ChunkRef} {x : ChunkRef × Store} (h : s.duplicate r = .ok x) :
    ∃ p p', s.chunks.get? r = some p ∧ (∀ d, p.Holds d → p'.Holds (s.medium.copy d)) ∧
      x = s.append p' := by
  unfold duplicate at h
  split at h
  · cases h
  · rename_i p hp
    cases h
    refine ⟨p, _, hp, fun d hd => ?_, rfl⟩
    cases s.medium with
    | memory => simpa [Medium.copy] using hd.copied
    | table => exact hd

theorem create_supported (hc : s.compression.Supported) (d : Option Bytes) :
    if maxChunkSize < (d.getD []).length then s.create d =
      .error (.packing (.tooLarge (d.getD []).length))
    else ∃ x, s.create d = .ok x := by
  have hpack := Packed.pack_supported hc d
  unfold create
  split
  · rename_i hlong
    rw [if_pos hlong] at hpack
    rw [hpack]
    rfl
  · rename_i hshort
    rw [if_neg hshort] at hpack
    obtain ⟨p, hp⟩ := hpack
    rw [hp]
    exact ⟨_, rfl⟩

/-- A store keeps what a ledger keeps. -/
structure Represents (s : Store) (m : Ledger) : Prop where
  next : s.next.num.toNat = m.given + 1
  kept : ∀ r, Option.Rel Packed.Holds (s.chunks.get? r) (m.kept r)

theorem empty_represents (medium : Medium) (c : Compression) :
    (empty medium c).Represents .empty where
  next := rfl
  kept _ := .none

theorem Represents.next_eq (h : s.Represents m) : s.next = m.next := by
  rw [Ledger.next, ← h.next, UInt64.ofNat_toNat]

theorem Represents.cases (h : s.Represents m) (r : ChunkRef) :
    s.chunks.get? r = none ∧ m.kept r = none ∨
      ∃ p d, s.chunks.get? r = some p ∧ m.kept r = some d ∧ p.Holds d := by
  have hr := h.kept r
  generalize s.chunks.get? r = p at hr ⊢
  generalize m.kept r = d at hr ⊢
  cases hr with
  | none => exact .inl ⟨rfl, rfl⟩
  | some hp => exact .inr ⟨_, _, rfl, rfl, hp⟩

theorem Represents.append (h : s.Represents m) (hroom : m.given + 2 < 2 ^ 64) {p : Packed}
    {d : Option Bytes} (hp : p.Holds d) : (s.append p).2.Represents (m.put d) where
  next := by
    change (s.next.num + 1).toNat = m.given + 1 + 1
    rw [UInt64.toNat_add, h.next]
    exact Nat.mod_eq_of_lt hroom
  kept r := by
    change Option.Rel Packed.Holds ((s.chunks.insert s.next p).get? r) ((m.put d).kept r)
    rw [h.next_eq]
    by_cases hr : r = m.next
    · rw [hr, SortedMap.get?_insert_self, m.kept_put_next]
      exact .some hp
    · rw [SortedMap.get?_insert_of_ne _ _ hr, Ledger.kept_put_of_ne hr]
      exact h.kept r

theorem Represents.erase (h : s.Represents m) (r : ChunkRef) :
    { s with chunks := s.chunks.erase r }.Represents (m.drop r) where
  next := h.next
  kept r' := by
    change Option.Rel Packed.Holds ((s.chunks.erase r).get? r') ((m.drop r).kept r')
    by_cases hr : r' = r
    · rw [hr, SortedMap.get?_erase_self, m.kept_drop_self]
      exact .none
    · rw [SortedMap.get?_erase_of_ne _ hr, m.kept_drop_of_ne hr]
      exact h.kept r'

/-- A store does to a call what the ledger of its medium does, and stays in step with it. -/
theorem Represents.call (h : s.Represents m) (hc : s.compression.Supported)
    (hroom : m.given + 2 < 2 ^ 64) (c : Call) :
    (s.call c).1 = (m.call s.medium c).1 ∧ (s.call c).2.Represents (m.call s.medium c).2 := by
  cases c with
  | create d =>
    have hcreate := create_supported hc d
    rw [Store.call, Ledger.call]
    split at hcreate
    · rename_i hlong
      rw [hcreate, if_pos hlong]
      exact ⟨rfl, h⟩
    · rename_i hshort
      obtain ⟨x, hx⟩ := hcreate
      obtain ⟨p, hp, rfl⟩ := append_of_create hx
      rw [hx, if_neg hshort]
      exact ⟨congrArg _ (congrArg _ h.next_eq), h.append hroom hp⟩
  | fetch r =>
    rw [Store.call, Ledger.call, fetch]
    rcases h.cases r with ⟨hs, hm⟩ | ⟨p, d, hs, hm, hp⟩
    · rw [hs, hm]
      exact ⟨rfl, h⟩
    · simp only [hs, hm, hp.unpack]
      exact ⟨rfl, h⟩
  | delete r =>
    rw [Store.call, Ledger.call, delete]
    rcases h.cases r with ⟨hs, hm⟩ | ⟨p, d, hs, hm, -⟩
    · have habsent : s.chunks.contains r = false := by rw [SortedMap.contains, hs]; rfl
      rw [habsent, hm]
      exact ⟨rfl, h⟩
    · have hpresent : s.chunks.contains r = true := by rw [SortedMap.contains, hs]; rfl
      rw [hpresent, hm]
      exact ⟨rfl, h.erase r⟩
  | duplicate r =>
    rw [Store.call, Ledger.call]
    rcases h.cases r with ⟨hs, hm⟩ | ⟨p, d, hs, hm, hp⟩
    · rw [duplicate, hs, hm]
      exact ⟨rfl, h⟩
    · rcases hx : s.duplicate r with e | x
      · rw [duplicate, hs] at hx
        cases hx
      · obtain ⟨p', q, hp', hcopy, rfl⟩ := append_of_duplicate hx
        cases hs.symm.trans hp'
        rw [hm]
        exact ⟨congrArg _ (congrArg _ h.next_eq), h.append hroom (hcopy d hp)⟩

/-- No call changes how a store keeps chunks. -/
theorem call_setting (s : Store) (c : Call) :
    (s.call c).2.medium = s.medium ∧ (s.call c).2.compression = s.compression := by
  cases c with
  | create d =>
    simp only [Store.call, create]
    cases Packed.pack s.compression d with
    | error e => exact ⟨rfl, rfl⟩
    | ok p => exact ⟨rfl, rfl⟩
  | fetch r => exact ⟨rfl, rfl⟩
  | delete r =>
    simp only [Store.call, delete]
    cases s.chunks.contains r with
    | false => exact ⟨rfl, rfl⟩
    | true => exact ⟨rfl, rfl⟩
  | duplicate r =>
    simp only [Store.call, duplicate]
    cases s.chunks.get? r with
    | none => exact ⟨rfl, rfl⟩
    | some p => exact ⟨rfl, rfl⟩

theorem after_setting (s : Store) (calls : List Call) :
    (s.after calls).medium = s.medium ∧ (s.after calls).compression = s.compression := by
  induction calls generalizing s with
  | nil => exact ⟨rfl, rfl⟩
  | cons c rest ih =>
    obtain ⟨hmedium, hcompression⟩ := s.call_setting c
    rw [← hmedium, ← hcompression]
    exact ih (s.call c).2

end Store

namespace Ledger

variable {m : Ledger} {medium : Medium}

theorem given_call (medium : Medium) (m : Ledger) (c : Call) :
    (m.call medium c).2.given ≤ m.given + 1 := by
  cases c with
  | create d =>
    simp only [call]
    split
    · exact Nat.le_succ _
    · exact Nat.le_refl _
  | fetch r =>
    simp only [call]
    cases m.kept r with
    | none => exact Nat.le_succ _
    | some d => exact Nat.le_succ _
  | delete r =>
    simp only [call]
    cases m.kept r with
    | none => exact Nat.le_succ _
    | some d => exact Nat.le_succ _
  | duplicate r =>
    simp only [call]
    cases m.kept r with
    | none => exact Nat.le_succ _
    | some d => exact Nat.le_refl _

theorem given_after (medium : Medium) (m : Ledger) (calls : List Call) :
    (m.after medium calls).given ≤ m.given + calls.length := by
  induction calls generalizing m with
  | nil => exact Nat.le_refl _
  | cons c rest ih =>
    have hcall := m.given_call medium c
    have hrest := ih (m.call medium c).2
    rw [List.length_cons]
    change ((m.call medium c).2.after medium rest).given ≤ _
    omega

end Ledger

namespace Store

variable {s : Store} {m : Ledger}

/-- A store that keeps what a ledger keeps answers like it from then on, and what they keep
stays the same. -/
theorem Represents.run (h : s.Represents m) (hc : s.compression.Supported) {calls : List Call}
    (hroom : m.given + calls.length + 1 < 2 ^ 64) :
    s.history calls = m.history s.medium calls ∧
    (s.after calls).Represents (m.after s.medium calls) := by
  induction calls generalizing s m with
  | nil => exact ⟨rfl, h⟩
  | cons c rest ih =>
    rw [List.length_cons] at hroom
    obtain ⟨hsame, hnext⟩ := h.call hc (by omega) c
    obtain ⟨hmedium, hcompression⟩ := s.call_setting c
    have hgiven := m.given_call s.medium c
    obtain ⟨hhistory, hafter⟩ := ih hnext (by rwa [hcompression]) (by omega)
    rw [hmedium] at hhistory hafter
    refine ⟨?_, hafter⟩
    rw [history, Ledger.history, hsame, hhistory]

end Store

namespace Ledger

/-- Two ledgers that differ at most in whether empty data is absent. -/
def SameContents (m m' : Ledger) : Prop :=
  m.given = m'.given ∧ ∀ r, (m.kept r).map (·.getD []) = (m'.kept r).map (·.getD [])

variable {m m' : Ledger}

theorem SameContents.next (h : m.SameContents m') : m.next = m'.next := by
  rw [Ledger.next, Ledger.next, h.1]

theorem SameContents.put (h : m.SameContents m') {d d' : Option Bytes}
    (hd : d.getD [] = d'.getD []) : (m.put d).SameContents (m'.put d') := by
  refine ⟨congrArg (· + 1) h.1, fun r => ?_⟩
  by_cases hr : r = m.next
  · rw [hr, m.kept_put_next, h.next, m'.kept_put_next, Option.map_some, Option.map_some, hd]
  · rw [kept_put_of_ne hr, kept_put_of_ne (h.next ▸ hr), h.2]

theorem SameContents.drop (h : m.SameContents m') (r : ChunkRef) :
    (m.drop r).SameContents (m'.drop r) := by
  refine ⟨h.1, fun r' => ?_⟩
  by_cases hr : r' = r
  · rw [hr, m.kept_drop_self, m'.kept_drop_self]
  · rw [m.kept_drop_of_ne hr, m'.kept_drop_of_ne hr, h.2]

theorem SameContents.cases (h : m.SameContents m') (r : ChunkRef) :
    m.kept r = none ∧ m'.kept r = none ∨
      ∃ d d', m.kept r = some d ∧ m'.kept r = some d' ∧ d.getD [] = d'.getD [] := by
  have hr := h.2 r
  rcases hm : m.kept r with _ | d <;> rcases hm' : m'.kept r with _ | d' <;> rw [hm, hm'] at hr
  · exact .inl ⟨rfl, rfl⟩
  · cases hr
  · cases hr
  · exact .inr ⟨d, d', rfl, rfl, Option.some.inj hr⟩

theorem SameContents.call (h : m.SameContents m') (medium medium' : Medium) (c : Call) :
    (m.call medium c).1.map Answer.content = (m'.call medium' c).1.map Answer.content ∧
      (m.call medium c).2.SameContents (m'.call medium' c).2 := by
  cases c with
  | create d =>
    simp only [Ledger.call]
    split
    · exact ⟨rfl, h⟩
    · refine ⟨by rw [h.next], h.put ?_⟩
      rw [medium.getD_keep, medium'.getD_keep]
  | fetch r =>
    simp only [Ledger.call]
    rcases h.cases r with ⟨hm, hm'⟩ | ⟨d, d', hm, hm', hd⟩
    · rw [hm, hm']
      exact ⟨rfl, h⟩
    · simp only [hm, hm', Except.map, Answer.content, hd]
      exact ⟨trivial, h⟩
  | delete r =>
    simp only [Ledger.call]
    rcases h.cases r with ⟨hm, hm'⟩ | ⟨d, d', hm, hm', -⟩
    · rw [hm, hm']
      exact ⟨rfl, h⟩
    · rw [hm, hm']
      exact ⟨rfl, h.drop r⟩
  | duplicate r =>
    simp only [Ledger.call]
    rcases h.cases r with ⟨hm, hm'⟩ | ⟨d, d', hm, hm', hd⟩
    · rw [hm, hm']
      exact ⟨rfl, h⟩
    · rw [hm, hm']
      refine ⟨by rw [h.next], h.put ?_⟩
      rw [medium.getD_copy, medium'.getD_copy, hd]

/-- Media do not differ in the contents that they give back. -/
theorem SameContents.history (h : m.SameContents m') (medium medium' : Medium)
    (calls : List Call) :
    (m.history medium calls).contents = (m'.history medium' calls).contents := by
  induction calls generalizing m m' with
  | nil => rfl
  | cons c rest ih =>
    obtain ⟨hsame, hnext⟩ := h.call medium medium' c
    rw [Ledger.history, Ledger.history, History.contents_cons, History.contents_cons,
      hsame, ih hnext]

end Ledger

end Chunk
end Locksmith
