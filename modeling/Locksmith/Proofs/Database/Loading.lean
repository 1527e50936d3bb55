import Locksmith.Database.Load
import Locksmith.Proofs.Database.LockSetting

namespace Locksmith
namespace Database

/-- An object as it is made: it lies nowhere, and nothing lies in it. -/
structure Unplaced (o : Object) : Prop where
  location : o.location = .nothing
  contents : o.contents = []

theorem addAttribute_keeps {o o' : Object} {name : Bytes} {a : AttributeSpec}
    (h : addAttribute o name a = .ok o') :
    o'.location = o.location ∧ o'.contents = o.contents ∧ o'.locks = o.locks := by
  unfold addAttribute at h
  split at h
  · cases h
    exact ⟨rfl, rfl, rfl⟩
  · cases h

theorem addAttributes_keeps {o o' : Object} {attributes : List (Bytes × AttributeSpec)}
    (h : attributes.foldlM (fun o e => addAttribute o e.1 e.2) o = .ok o') :
    o'.location = o.location ∧ o'.contents = o.contents ∧ o'.locks = o.locks := by
  induction attributes generalizing o with
  | nil =>
    cases h
    exact ⟨rfl, rfl, rfl⟩
  | cons e rest ih =>
    rw [List.foldlM_cons] at h
    rcases hadd : addAttribute o e.1 e.2 with _ | mid
    · rw [hadd] at h
      cases h
    · rw [hadd] at h
      obtain ⟨hl, hc, hk⟩ := addAttribute_keeps hadd
      obtain ⟨hl', hc', hk'⟩ := ih h
      exact ⟨hl'.trans hl, hc'.trans hc, hk'.trans hk⟩

theorem ObjectSpec.build_unplaced {spec : ObjectSpec} {o : Object} (h : spec.build = .ok o) :
    Unplaced o ∧ o.locks = .empty := by
  unfold ObjectSpec.build at h
  dsimp only at h
  split at h
  · cases h
  rcases htype : spec.readType with _ | type
  · rw [htype] at h
    cases h
  rw [htype] at h
  rcases hflags : (ObjectFlags.ofNames spec.flags).mapError (LoadError.unknownFlag spec.id) with
    _ | flags
  · rw [hflags] at h
    cases h
  rw [hflags] at h
  obtain ⟨hl, hc, hk⟩ := addAttributes_keeps h
  exact ⟨⟨hl, hc⟩, hk⟩

def WorldFile.lockCount (w : WorldFile) : Nat := (w.objects.map (·.locks.length)).sum

def lockCount (source : Bytes) : Nat :=
  match WorldFile.parse source with
  | .ok w => w.lockCount
  | .error _ => 0

namespace Db

/-- Every step of loading keeps `inv`. It may ask for a number of locks that are still to be
set. -/
structure LoadInvariant (inv : Nat → Store → Prop) : Prop where
  mono : ∀ j k s, inv (k + j) s → inv k s
  add : ∀ k s s' o, inv k s → Unplaced o → o.locks = .empty → s.add o = .ok s' → inv k s'
  move : ∀ k s s' d dest, inv k s → s.move d dest = .ok s' → inv k s'
  setLock : ∀ k d name code creator flags,
    Ensures (inv (k + 1)) (setLock d name code creator flags) fun _ => inv k
  addChannel : ∀ k s c, inv k s → inv k (s.addChannel c)

namespace Ensures

variable {ε ε' α : Type} {p : Store → Prop}

theorem adapt {x : Db ε α} {f : ε → ε'} {q : Store → Prop} (h : Ensures p x fun _ => q) :
    Ensures p (ExceptT.adapt f x) fun _ => q := h

/-- Each step of a loop keeps an invariant that counts what is still to be done. -/
theorem forIn_sum {γ : Type} {f : γ → Db ε Unit} {inv : Nat → Store → Prop}
    (hmono : ∀ j k s, inv (k + j) s → inv k s)
    (cost : γ → Nat) (h : ∀ k a, Ensures (inv (k + cost a)) (f a) fun _ => inv k) (k : Nat)
    (l : List γ) :
    Ensures (inv (k + (l.map cost).sum))
      (ForIn.forIn l PUnit.unit fun a _ => do f a; return .yield PUnit.unit) fun _ =>
        inv k := by
  rw [← bind_pure_unit (x := ForIn.forIn l _ _)]
  refine (Ensures.forIn (fun rest s => inv (k + (rest.map cost).sum) s)
    (fun _ => inv k) l ?_).imp (fun _ hs => hs) ?_
  · intro a rest
    rw [List.map_cons, List.sum_cons, Nat.add_comm (cost a), ← Nat.add_assoc]
    refine (h _ a).imp (fun _ hs => hs) ?_
    rintro (e | u) s hs
    · exact hmono _ k s hs
    · exact hs
  · rintro (e | u) s hs
    · exact hs
    · exact hs

theorem forIn_keep {γ : Type} {f : γ → Db ε Unit} {inv : Nat → Store → Prop}
    (hmono : ∀ j k s, inv (k + j) s → inv k s)
    (h : ∀ k a, Ensures (inv k) (f a) fun _ => inv k) (k : Nat)
    (l : List γ) :
    Ensures (inv k) (ForIn.forIn l PUnit.unit fun a _ => do f a; return .yield PUnit.unit)
      fun _ => inv k := by
  have hsum := forIn_sum hmono (fun _ => 0) h k l
  rwa [List.map_const', List.sum_replicate, smul_zero] at hsum

end Ensures

variable {inv : Nat → Store → Prop} {k : Nat}

theorem loadObject_ensures (h : LoadInvariant inv) (spec : ObjectSpec) :
    Ensures (inv k) (loadObject spec) fun _ => inv k := by
  unfold loadObject
  rcases hbuild : spec.build with e | o
  · exact .throw fun _ hs => hs
  · obtain ⟨hunplaced, hlocks⟩ := ObjectSpec.build_unplaced hbuild
    refine .change ?_ fun _ _ hs _ => hs
    intro s s' hs hadd
    rcases hout : s.add o with e | s''
    · rw [hout] at hadd
      cases hadd
    · rw [hout] at hadd
      cases hadd
      exact h.add k s s' o hs hunplaced hlocks hout

theorem placeObject_ensures (h : LoadInvariant inv) (spec : ObjectSpec) :
    Ensures (inv k) (placeObject spec) fun _ => inv k := by
  refine .ite (fun _ => .pure fun _ hs => hs) fun _ => .change ?_ fun _ _ hs _ => hs
  intro s s' hs hmove
  rcases hout : s.move spec.id (spec.location.getD .nothing) with e | s''
  · rw [hout] at hmove
    cases hmove
  · rw [hout] at hmove
    cases hmove
    exact h.move k s s' _ _ hs hout

theorem loadLock_ensures (h : LoadInvariant inv) (spec : ObjectSpec) (name : Bytes)
    (l : LockSpec) :
    Ensures (inv (k + 1)) (loadLock spec name l) fun _ => inv k := by
  unfold loadLock
  rcases LockFlags.ofNames l.flags with flag | flags
  · exact .throw fun s hs => h.mono 1 k s hs
  · refine .store_bind fun s hs => ?_
    dsimp only
    rcases s.compiler.compileLoad l.source name with e | (_ | code)
    · exact .look_bind fun _ => .throw fun _ heq => heq ▸ h.mono 1 k s hs
    · exact .pure fun _ heq => heq ▸ h.mono 1 k s hs
    · refine .adapt ?_
      exact (h.setLock k spec.id name (some code) _ flags).imp (fun _ heq => heq ▸ hs)
        fun _ _ hs => hs

theorem loadLocks_ensures (h : LoadInvariant inv) (spec : ObjectSpec) :
    Ensures (inv (k + spec.locks.length)) (loadLocks spec) fun _ => inv k := by
  have hloop := Ensures.forIn_sum h.mono (fun _ => 1)
    (fun k e => loadLock_ensures (k := k) h spec e.1 e.2) k
    (spec.locks.mergeSort fun a b => Bytes.le a.1 b.1)
  rw [List.map_const', List.sum_replicate, List.length_mergeSort, smul_eq_mul, mul_one] at hloop
  exact .bind hloop (fun _ => .pure fun _ hs => hs) fun _ _ hs => hs

theorem loadChannel_ensures (h : LoadInvariant inv) (c : ChannelSpec) :
    Ensures (inv k) (loadChannel c) fun _ => inv k := by
  refine .ite (fun _ => .throw fun _ hs => hs) fun _ => .change ?_ fun _ _ hs _ => hs
  intro s s' hs heq
  cases heq
  exact h.addChannel k s _ hs

theorem loadWorld_ensures (h : LoadInvariant inv) (w : WorldFile) :
    Ensures (inv (k + w.lockCount)) (loadWorld w) fun _ => inv k := by
  have hfail : ∀ (e : LoadError) s, inv (k + w.lockCount) s → inv k s := fun _ => h.mono _ k
  refine .bind (r := fun _ => inv (k + w.lockCount))
    (.forIn_keep h.mono (fun k => loadObject_ensures h) _ _) (fun _ => ?_) hfail
  refine .bind (r := fun _ => inv (k + w.lockCount))
    (.forIn_keep h.mono (fun k => placeObject_ensures h) _ _) (fun _ => ?_) hfail
  have hlocks := Ensures.forIn_sum h.mono (fun spec : ObjectSpec => spec.locks.length)
    (fun k => loadLocks_ensures h) k (w.objects.mergeSort fun a b => a.id.num ≤ b.id.num)
  rw [((List.mergeSort_perm w.objects _).map _).sum_eq] at hlocks
  refine .bind hlocks (fun _ => ?_) fun _ _ hs => hs
  refine .bind (r := fun _ => inv k)
    (.forIn_keep h.mono (fun k => loadChannel_ensures h) _ _) (fun _ => ?_) fun _ _ hs => hs
  exact .look fun _ _ hs => hs

theorem loadText_ensures (h : LoadInvariant inv) (source : Bytes) :
    Ensures (inv (k + lockCount source)) (loadText source) fun _ => inv k := by
  unfold loadText lockCount
  rcases WorldFile.parse source with e | w
  · exact .throw fun _ hs => hs
  · exact loadWorld_ensures h w

end Db
end Database
end Locksmith
