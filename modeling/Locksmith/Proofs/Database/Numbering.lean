import Locksmith.Proofs.Database.WorldOrder
import Locksmith.Proofs.Text.References

namespace Locksmith
namespace Database

def Slot.number? (slot : Slot) : Option Dbref := slot.object?.map (·.id)

namespace Store

variable {s s' : Store} {d dest : Dbref} {o : Object} {ids : List Dbref}

/-- What became of a number: it is free, its object is gone, or the number of the object that it
stands for. -/
def standing (s : Store) (d : Dbref) : Option (Option Dbref) :=
  (s.slots.get? d).map Slot.number?

theorem join_standing (s : Store) (d : Dbref) :
    (s.standing d).join = (s.get? d).map (·.id) := by
  rw [standing, get?_eq_bind]
  cases s.slots.get? d with
  | none => rfl
  | some slot => rfl

theorem standing_of_get? (h : s.get? d = some o) : s.standing d = some (some o.id) := by
  rw [← Option.join_eq_some_iff, join_standing, h, Option.map_some]

theorem contains_slots (s : Store) (d : Dbref) :
    s.slots.contains d = (s.standing d).isSome := by
  rw [standing, Option.isSome_map, SortedMap.contains]

theorem standing_insert (s : Store) (d : Dbref) (slot : Slot) (a : Dbref) :
    { s with slots := s.slots.insert d slot }.standing a = if a =
      d then some slot.number? else s.standing a := by
  rw [standing]
  by_cases ha : a = d
  · rw [if_pos ha, ha, SortedMap.get?_insert_self, Option.map_some]
  · rw [if_neg ha, SortedMap.get?_insert_of_ne _ _ ha, standing]

theorem standing_modify (s : Store) (d : Dbref) (f : Object → Object)
    (hf : ∀ o, (f o).id = o.id) :
    (s.modify d f).standing = s.standing := by
  unfold modify
  split
  · rename_i o ho
    funext a
    rw [standing_insert]
    split
    · rename_i ha
      rw [ha, standing_of_get? ho]
      exact congrArg (fun d => some (some d)) (hf o)
    · rfl
  · rfl

theorem standing_move (h : s.move d dest = .ok s') : s'.standing = s.standing := by
  obtain ⟨o, -, -, -, rfl⟩ := move_eq_ok h
  rw [standing_modify _ dest (·.addItem d) fun _ => rfl,
    standing_modify _ d ({ · with location := dest }) fun _ => rfl,
    standing_modify s o.location (·.dropItem d) fun _ => rfl]

theorem standing_retire (s : Store) (o : Object) (a : Dbref) :
    (s.retire o).standing a = if a = o.id then some none else s.standing a := by
  have hemptied (l : List Dbref) (s : Store) :
      (l.foldl (fun s c => s.modify c ({ · with location := .nothing })) s).standing =
        s.standing := by
    induction l generalizing s with
    | nil => rfl
    | cons c rest ih => exact (ih _).trans (s.standing_modify c _ fun _ => rfl)
  rw [retire, standing_insert, hemptied,
    s.standing_modify o.location (·.dropItem o.id) fun _ => rfl]
  rfl

theorem standing_releaseChunk (s : Store) (r : ChunkRef) :
    (s.releaseChunk r).standing = s.standing := by
  rw [releaseChunk]
  split
  · rfl
  · rcases s.chunks.delete r with _ | chunks
    · rfl
    · rfl

theorem standing_forget (s : Store) (old : Option LockRecord) :
    (s.forget old).standing = s.standing := by
  cases old with
  | none => rfl
  | some l => exact s.standing_releaseChunk l.ref

theorem Relocked.standing {name : Bytes} {creator : Dbref} {flags : LockFlags}
    (h : Relocked s d name creator flags s') : s'.standing = s.standing := by
  cases h with
  | same => rfl
  | freed => exact (standing_forget _ _).trans (standing_modify s d _ fun _ => rfl)
  | put => exact (standing_forget _ _).trans (standing_modify _ d _ fun _ => rfl)

/-- The numbers that are taken are those in the list. -/
structure Counted (ids : List Dbref) (s : Store) : Prop where
  taken : ∀ d, (s.standing d).isSome ↔ d ∈ ids
  named : ∀ d x, s.standing d = some (some x) → x = d
  numbers : ∀ d ∈ ids, d.isSentinel = false

namespace Counted

theorem congr (h : Counted ids s) (hsame : s'.standing = s.standing) : Counted ids s' where
  taken := hsame ▸ h.taken
  named := hsame ▸ h.named
  numbers := h.numbers

theorem add (h : Counted ids s) (hadd : s.add o = .ok s') : Counted (o.id :: ids) s' := by
  obtain ⟨hsentinel, -, rfl⟩ := add_eq_ok.1 hadd
  constructor
  · intro d
    rw [standing_insert, List.mem_cons]
    split
    · rename_i hd
      exact iff_of_true rfl (.inl hd)
    · rename_i hd
      rw [or_iff_right hd, h.taken]
  · intro d x hx
    rw [standing_insert] at hx
    split at hx
    · rename_i hd
      cases hx
      exact hd.symm
    · exact h.named d x hx
  · exact List.forall_mem_cons.2 ⟨hsentinel, h.numbers⟩

/-- The number of an object that is gone stays taken. -/
theorem retire (h : Counted ids s) (ho : s.get? d = some o) : Counted ids (s.retire o) := by
  have hstanding := standing_of_get? ho
  have hid : o.id = d := h.named d o.id hstanding
  constructor
  · intro a
    rw [standing_retire]
    split
    · rename_i ha
      refine iff_of_true rfl ((h.taken a).1 ?_)
      rw [ha, hid, hstanding]
      rfl
    · exact h.taken a
  · intro a x hx
    rw [standing_retire] at hx
    split at hx
    · cases hx
    · exact h.named a x hx
  · exact h.numbers

end Counted

/-- Each number that is taken stands for the object with this number. -/
def Fresh (s : Store) : Prop := ∀ d x, s.standing d = some x → x = some d ∧ d.isSentinel = false

theorem Fresh.counted (h : s.Fresh) (hthere : ∀ d, (s.get? d).isSome ↔ d ∈ ids) :
    Counted ids s where
  taken d := by
    have hget := s.join_standing d
    rw [← hthere]
    rcases hx : s.standing d with _ | x
    · rw [hx] at hget
      rw [Option.map_eq_none_iff.1 hget.symm]
      exact Iff.rfl
    · rw [hx, (h d x hx).1] at hget
      obtain ⟨o, ho, -⟩ := Option.map_eq_some_iff.1 hget.symm
      rw [ho]
      exact Iff.rfl
  named d x hx := Option.some.inj (h d (some x) hx).1
  numbers d hd := by
    obtain ⟨o, ho⟩ := Option.isSome_iff_exists.1 ((hthere d).2 hd)
    exact (h d _ (standing_of_get? ho)).2

end Store

namespace Db

open Store

variable {ids : List Dbref}

theorem recycle_counted (d : Dbref) :
    Ensures (Counted ids) (recycle d) fun _ => Counted ids := by
  refine .bind (freeAllLocks_keeps ?_ ?_) (fun _ => .change ?_ fun _ _ h _ => h) fun _ _ h => h
  · exact fun s h => h.congr (s.standing_modify d _ fun _ => rfl)
  · exact fun s r h => h.congr (s.standing_releaseChunk r)
  · intro s s' h hs'
    rcases ho : s.get? d with _ | o
    · rw [ho] at hs'
      cases hs'
    · rw [ho] at hs'
      cases hs'
      exact h.retire ho

theorem fresh_loadInvariant : LoadInvariant fun _ => Fresh where
  mono _ _ _ h := h
  add _ s s' o h _ _ hadd := by
    obtain ⟨hsentinel, -, rfl⟩ := add_eq_ok.1 hadd
    intro d x hx
    rw [standing_insert] at hx
    split at hx
    · rename_i hd
      cases hx
      rw [hd]
      exact ⟨rfl, hsentinel⟩
    · exact h d x hx
  move _ s s' d dest h hmove := by
    rw [Fresh, standing_move hmove]
    exact h
  setLock _ d name code creator flags := by
    refine .of_forall fun s h => ?_
    refine (setLock_relocked d name code creator flags).imp (fun _ heq => heq) fun _ s' hs => ?_
    rw [Fresh, hs.standing]
    exact h
  addChannel _ _ _ h := h

end Db

/-- Something that is done to the objects of a database. -/
inductive Upkeep where
  | add (o : Object)
  | move (d dest : Dbref)
  | recycle (d : Dbref)

namespace Upkeep

def perform (σ : Session) : Upkeep → Session
  | add o => ((Db.change (·.add o)).run.run σ).2
  | move d dest => ((Db.change (·.move d dest)).run.run σ).2
  | recycle d => ((Db.recycle d).run.run σ).2

def given (s : Store) : Upkeep → List Dbref
  | add o => if (s.add o).isOk then [o.id] else []
  | move _ _ => []
  | recycle _ => []

open Store

theorem perform_counted {σ : Session} {ids : List Dbref} (h : Counted ids σ.store)
    (call : Upkeep) :
    Counted (call.given σ.store ++ ids) (call.perform σ).store := by
  cases call with
  | add o =>
    have hadd : Db.Ensures (· = σ.store) (Db.change (·.add o)) fun _ =>
        Counted ((if (σ.store.add o).isOk then [o.id] else []) ++ ids) := by
      refine .change ?_ ?_
      · rintro s s' rfl hout
        rw [hout]
        exact h.add hout
      · rintro s e rfl hout
        rw [hout]
        exact h
    exact hadd σ rfl
  | move d dest =>
    have hmove : Db.Ensures (Counted ids) (Db.change (·.move d dest)) fun _ => Counted ids :=
      .change (fun _ _ hs hout => hs.congr (standing_move hout)) fun _ _ hs _ => hs
    exact hmove σ h
  | recycle d => exact Db.recycle_counted d σ h

/-- The session came about from a new database, or from one into which the text of a world was
loaded, and objects with these numbers were added on the way. -/
inductive Leads (settings : Settings) (chunks : Chunk.Store) : Session → List Dbref → Prop
  | new : Leads settings chunks ⟨.empty settings chunks, []⟩ []
  | loaded {source : Bytes} {w : WorldFile} {σ : Session}
      (hparse : WorldFile.parse source = .ok w)
      (hload : (Db.loadText source).run.run ⟨.empty settings chunks, []⟩ = (.ok (), σ)) :
      Leads settings chunks σ (w.objects.map (·.id))
  | step {σ : Session} {ids : List Dbref} (h : Leads settings chunks σ ids) (call : Upkeep) :
      Leads settings chunks (call.perform σ) (call.given σ.store ++ ids)

theorem load_counted {settings : Settings} {chunks : Chunk.Store} {w : WorldFile} {σ : Session}
    (h : w.load settings chunks = (.ok (), σ)) : Counted (w.objects.map (·.id)) σ.store := by
  have hfresh : σ.store.Fresh := by
    have hempty : (Store.empty settings chunks).Fresh := fun _ _ hx => by cases hx
    have hall :=
      Db.loadWorld_ensures (k := 0) Db.fresh_loadInvariant w ⟨.empty settings chunks, []⟩ hempty
    rwa [← WorldFile.load, h] at hall
  refine hfresh.counted fun d => ?_
  obtain ⟨s₁, s₂, hadd, hplace, hfurnish⟩ := Db.phases_of_loadWorld h
  have hundisturbed := @Db.furnish_undisturbed s₂ w.inOrder w.channels ⟨s₂, []⟩ (.refl s₂)
  rw [hfurnish] at hundisturbed
  have hsame : σ.store.locationOf d = s₂.locationOf d := hundisturbed.same.map (fun _ => rfl) d
  rw [← isSome_locationOf, hsame]
  exact (WorldFile.halfway_inOrder hadd hplace).there d

/-- However the session came about, the numbers that are taken are those that were given away.
-/
theorem Leads.counted {settings : Settings} {chunks : Chunk.Store} {σ : Session}
    {ids : List Dbref} (h : Leads settings chunks σ ids) : Counted ids σ.store := by
  induction h with
  | new =>
    refine ⟨fun d => iff_of_false ?_ List.not_mem_nil, ?_, List.forall_mem_nil _⟩
    · exact Bool.false_ne_true
    · intro d x hx
      cases hx
  | loaded hparse hload =>
    rw [Db.loadText, hparse] at hload
    exact load_counted hload
  | step _ call ih => exact perform_counted ih call

end Upkeep

namespace Store

variable {s : Store} {ids : List Dbref}

/-- No number that is taken is higher than the highest. -/
theorem Counted.highest (h : Counted ids s) :
    s.highest = .nothing ∧ ids = [] ∨ s.highest ∈ ids ∧ ∀ d ∈ ids, d.num ≤ s.highest.num := by
  have hkeys (d : Dbref) : d ∈ s.slots.keys ↔ d ∈ ids := by
    rw [SortedMap.mem_keys, contains_slots, h.taken]
  rw [Store.highest]
  cases hlast : s.slots.keys.getLast? with
  | none =>
    rw [List.getLast?_eq_none_iff] at hlast
    refine .inl ⟨rfl, List.eq_nil_iff_forall_not_mem.2 fun d hd => ?_⟩
    rw [← hkeys, hlast] at hd
    cases hd
  | some last =>
    obtain ⟨before, hsplit⟩ := List.getLast?_eq_some_iff.1 hlast
    have hsorted : s.slots.keys.Pairwise fun a b => compare a b = .lt :=
      List.pairwise_map.2 s.slots.sorted
    rw [hsplit] at hsorted hkeys
    have hbelow := (List.pairwise_append.1 hsorted).2.2
    refine .inr ⟨(hkeys last).1 (List.mem_append_right _ (List.mem_singleton_self last)),
      fun d hd => ?_⟩
    rcases List.mem_append.1 ((hkeys d).2 hd) with hmem | hmem
    · have hlt : compare d.num last.num = .lt :=
        hbelow d hmem last (List.mem_singleton_self last)
      exact Int64.le_of_lt (Std.compare_eq_lt.1 hlt)
    · rw [List.mem_singleton.1 hmem]
      exact Int64.le_refl _

def lastNumber : Dbref := ⟨Int64.maxValue⟩

theorem Counted.toInt_highest (h : Counted ids s) : -1 ≤ s.highest.num.toInt := by
  rcases h.highest with ⟨hnothing, -⟩ | ⟨hmem, -⟩
  · rw [hnothing]
    decide
  · have hnumber := h.numbers _ hmem
    rw [Dbref.isSentinel, decide_eq_false_iff_not, Int64.not_lt,
      Int64.le_iff_toInt_le] at hnumber
    exact Int.le_trans (by decide) hnumber

/-- Numbers do not wrap around before the largest one is given away. -/
theorem Counted.toInt_nextNumber (h : Counted ids s) (hlast : lastNumber ∉ ids) :
    s.nextNumber.num.toInt = s.highest.num.toInt + 1 := by
  have hne : s.highest.num.toInt ≠ Int64.maxValue.toInt := by
    intro hmax
    have hhighest : s.highest = lastNumber := Dbref.toInt_num_inj hmax
    rcases h.highest with ⟨hnothing, -⟩ | ⟨hmem, -⟩
    · rw [hhighest] at hnothing
      revert hnothing
      decide
    · exact hlast (hhighest ▸ hmem)
  have hlow := h.toInt_highest
  have hhigh := s.highest.num.toInt_lt
  have hmax : Int64.maxValue.toInt = 2 ^ 63 - 1 := rfl
  have hone : (1 : Int64).toInt = 1 := rfl
  rw [Store.nextNumber, Int64.toInt_add, hone]
  exact Int.bmod_eq_of_le (by omega) (by omega)

theorem Counted.lt_nextNumber (h : Counted ids s) (hlast : lastNumber ∉ ids) {d : Dbref}
    (hd : d ∈ ids) : d.num < s.nextNumber.num := by
  rcases h.highest with ⟨-, hnil⟩ | ⟨-, hle⟩
  · rw [hnil] at hd
    cases hd
  · have hd := Int64.le_iff_toInt_le.1 (hle d hd)
    rw [Int64.lt_iff_toInt_lt, h.toInt_nextNumber hlast]
    omega

theorem Counted.nextNumber_wraps (h : Counted ids s) (hlast : lastNumber ∈ ids) :
    s.nextNumber = ⟨Int64.minValue⟩ := by
  rcases h.highest with ⟨-, hnil⟩ | ⟨-, hle⟩
  · rw [hnil] at hlast
    cases hlast
  · have hmax : Int64.maxValue = s.highest.num :=
      Int64.le_antisymm (hle _ hlast) (Int64.le_maxValue _)
    rw [Store.nextNumber, ← hmax]
    rfl

/-- However a database came about, its next number was never given away. It is the number of no
sentinel and an object can be added under it, unless the largest number was given away: then it
is the least of all numbers, and the object is refused. -/
theorem nextNumber_free {settings : Settings} {chunks : Chunk.Store} {σ : Session}
    (h : Upkeep.Leads settings chunks σ ids) (owner : Dbref) :
    σ.store.nextNumber ∉ ids ∧
    (lastNumber ∉ ids →
      σ.store.nextNumber.isSentinel = false ∧ (∀ d ∈ ids, d.num < σ.store.nextNumber.num) ∧
      ∃ s', σ.store.add (.new σ.store.nextNumber owner) = .ok s') ∧
    (lastNumber ∈ ids → σ.store.nextNumber = ⟨Int64.minValue⟩ ∧
      σ.store.add (.new σ.store.nextNumber owner) = .error (.badNumber ⟨Int64.minValue⟩)) := by
  have hcounted := h.counted
  by_cases hlast : lastNumber ∈ ids
  · have hwraps := hcounted.nextNumber_wraps hlast
    refine ⟨fun hmem => ?_, fun hfree => absurd hlast hfree, fun _ => ⟨hwraps, ?_⟩⟩
    · have hnumber := hcounted.numbers _ hmem
      rw [hwraps] at hnumber
      cases hnumber
    · rw [hwraps]
      rfl
  · have hbelow (d : Dbref) (hd : d ∈ ids) := hcounted.lt_nextNumber hlast hd
    have hfree : σ.store.nextNumber ∉ ids := fun hmem => Int64.lt_irrefl (hbelow _ hmem)
    have hsentinel : σ.store.nextNumber.isSentinel = false := by
      have hlow := hcounted.toInt_highest
      rw [Dbref.isSentinel, decide_eq_false_iff_not, Int64.not_lt, Int64.le_iff_toInt_le,
        hcounted.toInt_nextNumber hlast]
      exact Int.add_le_add_right hlow 1
    have hslot : σ.store.slots.get? σ.store.nextNumber = none := by
      rw [← Option.not_isSome_iff_eq_none]
      have htaken := (hcounted.taken σ.store.nextNumber).not.2 hfree
      rwa [← contains_slots] at htaken
    refine ⟨hfree, fun _ => ⟨hsentinel, hbelow, _, add_eq_ok.2 ⟨hsentinel, hslot, rfl⟩⟩,
      fun hmem => absurd hmem hlast⟩

/-- Once an object has the largest number, the next number is negative and an object is refused
under it. -/
theorem nextNumber_refused :
    ∃ σ, Upkeep.Leads .standard (.empty .memory .none) σ [lastNumber] ∧
      σ.store.nextNumber.isSentinel = true ∧
      σ.store.add (.new σ.store.nextNumber 1) = .error (.badNumber σ.store.nextNumber) := by
  refine ⟨_, .step .new (.add (.new lastNumber 1)), ?_, ?_⟩
  · decide +kernel
  · rfl

def pairing : Session :=
  [Upkeep.add (.new 4 4), .add (.new 9 4), .recycle 9].foldl Upkeep.perform
    ⟨.empty .standard (.empty .memory .none), []⟩

/-- The number of the object that is gone is not given away again. -/
theorem nextNumber_free_pairing :
    Upkeep.Leads .standard (.empty .memory .none) pairing [9, 4] ∧
    (pairing.store.get? 9).isNone = true ∧
    pairing.store.nextNumber = 10 ∧ pairing.store.nextNumber ∉ [9, 4] ∧
      ∃ s', pairing.store.add (.new pairing.store.nextNumber 4) = .ok s' := by
  have hleads : Upkeep.Leads .standard (.empty .memory .none) pairing [9, 4] :=
    .step (.step (.step .new (.add (.new 4 4))) (.add (.new 9 4))) (.recycle 9)
  obtain ⟨hfree, hroom, -⟩ := nextNumber_free hleads 4
  exact ⟨hleads, by decide +kernel, by decide +kernel, hfree, (hroom (by decide)).2.2⟩

end Store
end Database
end Locksmith
