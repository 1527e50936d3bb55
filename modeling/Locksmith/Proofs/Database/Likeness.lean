import Mathlib
import Locksmith.Database.Lookup

namespace Locksmith
namespace Object

/-- An object but for its locks. -/
def unlocked (o : Object) : Object := { o with locks := .empty }

/-- An object but for its attributes and locks. -/
def bare (o : Object) : Object := { o with attributes := .empty, locks := .empty }

/-- Objects that are the same but for what is taken away here agree on all that does not depend
on it. -/
theorem map_congr_of_erase {α : Type} {erase : Object → Object} {f : Object → α}
    (hf : ∀ o, f (erase o) = f o) {x y : Option Object} (h : x.map erase = y.map erase) :
    x.map f = y.map f := by
  have hmap (z : Option Object) : z.map f = (z.map erase).map f := by
    rw [Option.map_map]
    congr 1
    funext o
    exact (hf o).symm
  rw [hmap, h, ← hmap]

end Object

namespace Database

theorem lockName_of_ne_nil {name : Bytes} (h : name ≠ []) : lockName name = name := by
  rw [lockName, if_neg]
  rwa [List.isEmpty_iff]

namespace Store

variable {s s' s'' : Store}

/-- The same objects, but for their attributes and locks. -/
def Alike (s s' : Store) : Prop := ∀ d, (s'.get? d).map Object.bare = (s.get? d).map Object.bare

/-- The same objects, but for their locks. -/
def SameUnlocked (s s' : Store) : Prop :=
  ∀ d, (s'.get? d).map Object.unlocked = (s.get? d).map Object.unlocked

namespace SameUnlocked

theorem refl (s : Store) : SameUnlocked s s := fun _ => rfl

theorem trans (h : SameUnlocked s s') (h' : SameUnlocked s' s'') : SameUnlocked s s'' :=
  fun d => (h' d).trans (h d)

theorem map (h : SameUnlocked s s') {α : Type} {f : Object → α} (hf : ∀ o, f o.unlocked = f o)
    (d : Dbref) : (s'.get? d).map f = (s.get? d).map f :=
  Object.map_congr_of_erase hf (h d)

theorem alike (h : SameUnlocked s s') : Alike s s' := h.map fun _ => rfl

end SameUnlocked

namespace Alike

variable (h : Alike s s')
include h

theorem map {α : Type} {f : Object → α} (hf : ∀ o, f o.bare = f o) (d : Dbref) :
    (s'.get? d).map f = (s.get? d).map f :=
  Object.map_congr_of_erase hf (h d)

theorem any {p : Object → Bool} (hp : ∀ o, p o.bare = p o) (d : Dbref) :
    (s'.get? d).any p = (s.get? d).any p := by
  have hany (x : Option Object) : x.any p = (x.map p).any id := by
    rw [Option.any_map]
    rfl
  rw [hany, h.map hp, ← hany]

theorem isValid (d : Dbref) : s'.isValid d = s.isValid d := by
  have hsome := congrArg Option.isSome (h d)
  rw [Option.isSome_map, Option.isSome_map] at hsome
  rw [Store.isValid, Store.isValid, hsome]

theorem owner (d : Dbref) : s'.owner d = s.owner d := by
  rw [Store.owner, Store.owner, h.map fun _ => rfl]

theorem name (d : Dbref) : s'.name d = s.name d := by
  rw [Store.name, Store.name, h.map fun _ => rfl]

theorem carries (holder item : Dbref) : s'.carries holder item = s.carries holder item := by
  have hcarries (s : Store) : s.carries holder item =
      ((s.get? item).map fun o => !holder.isSentinel && o.location = holder).getD false := by
    rw [Store.carries]
    rcases s.get? item with _ | o
    · rfl
    · rfl
  rw [hcarries, hcarries, h.map fun _ => rfl]

theorem leastIdle (d : Dbref) : s'.leastIdle d = s.leastIdle d := by
  rw [Store.leastIdle, Store.leastIdle, h.map fun _ => rfl]

theorem isWizard (d : Dbref) : s'.isWizard d = s.isWizard d := h.any (fun _ => rfl) d

theorem seesAll (d : Dbref) : s'.seesAll d = s.seesAll d := h.any (fun _ => rfl) d

theorem controls (who what : Dbref) : s'.controls who what = s.controls who what := by
  have hcontrols (s : Store) : s.controls who what =
      ((s.get? who).map fun w => (w.flags, w.owner)).any fun w =>
        ((s.get? what).map fun t => (t.flags, t.owner)).any fun t =>
          who = what || w.1.has .wizard || (!t.1.has .wizard && w.2 = t.2) := by
    rw [Store.controls]
    rcases s.get? who with _ | w
    · rfl
    · rcases s.get? what with _ | t
      · rfl
      · rfl
  rw [hcontrols, hcontrols, h.map fun _ => rfl, h.map fun _ => rfl]

theorem oversees (who what : Dbref) : s'.oversees who what = s.oversees who what := by
  rw [Store.oversees, Store.oversees, h.controls, h.seesAll]

theorem hasFlagClass (className : Bytes) (subject viewer : Dbref) (pattern : Bytes) :
    s'.hasFlagClass className subject viewer pattern =
      s.hasFlagClass className subject viewer pattern := by
  have hflags (o : Object) : s'.canSeeFlags viewer o = s.canSeeFlags viewer o := by
    rw [canSeeFlags, canSeeFlags, h.oversees]
  simp only [Store.hasFlagClass, hflags]
  apply h.any
  intro o
  dsimp only [Object.bare, canSeeFlags, Object.hasPower]

theorem substitute (self enactor : Dbref) (text : Bytes) :
    s'.substitute self enactor text = s.substitute self enactor text := by
  fun_induction Store.substitute s self enactor text with
  | case1 => rfl
  | case2 => rfl
  | case3 c r ih => simp only [Store.substitute, ↓reduceIte, ih, code, h.name]
  | case4 b c r hb ih => simp only [Store.substitute, if_neg hb, ih]

/-- Whether an attribute can be read depends on its flags only. -/
theorem canReadAttribute {d : Dbref} {name : Bytes}
    (hflags : (s'.get? d).map (fun o => (o.attribute? name).map (·.flags)) =
      (s.get? d).map fun o => (o.attribute? name).map (·.flags)) (viewer : Dbref) :
    s'.canReadAttribute viewer d name = s.canReadAttribute viewer d name := by
  have hread (s : Store) : s.canReadAttribute viewer d name =
      ((s.get? d).map fun o => (o.attribute? name).map (·.flags)).any (·.all fun flags =>
        if flags.has .hidden then s.seesAll viewer
        else if flags.has .privately then s.oversees viewer d else true) := by
    rw [Store.canReadAttribute, Option.any_map]
    congr 1
    funext o
    rcases o.attribute? name with _ | a
    · rfl
    · rfl
  rw [hread, hread, hflags, h.seesAll, h.oversees]

/-- Whether a lock can be read depends on its flags only. -/
theorem canReadLock {d : Dbref} {name : Bytes}
    (hflags : (s'.get? d).map (fun o => (o.lock? name).map (·.flags)) =
      (s.get? d).map fun o => (o.lock? name).map (·.flags)) (viewer : Dbref) :
    s'.canReadLock viewer d name = s.canReadLock viewer d name := by
  have hread (s : Store) : s.canReadLock viewer d name =
      ((s.get? d).map fun o => (o.lock? name).map (·.flags)).any
        (·.all fun flags => !flags.has .privately || s.oversees viewer d) := by
    rw [Store.canReadLock, Option.any_map]
    congr 1
    funext o
    rcases o.lock? name with _ | l
    · rfl
    · rfl
  rw [hread, hread, hflags, h.oversees]

theorem evalAttribute {d : Dbref} {name : Bytes}
    (hvalue : s'.attribute? d name = s.attribute? d name)
    (enactor : Dbref) : s'.evalAttribute d name enactor = s.evalAttribute d name enactor := by
  simp only [Store.evalAttribute, hvalue, h.substitute]

theorem canSeeChannel (hc : s'.channels = s.channels) (viewer : Dbref) (name : Bytes) :
    s'.canSeeChannel viewer name = s.canSeeChannel viewer name := by
  simp only [Store.canSeeChannel, channel?, hc, h.seesAll]

end Alike

theorem attribute?_congr {d : Dbref} {name : Bytes}
    (h : (s'.get? d).map (fun o => (o.attribute? name).map (·.value)) =
      (s.get? d).map fun o => (o.attribute? name).map (·.value)) :
    s'.attribute? d name = s.attribute? d name := by
  have hjoin (s : Store) : s.attribute? d name =
      ((s.get? d).map fun o => (o.attribute? name).map (·.value)).join := by
    rw [attribute?]
    rcases s.get? d with _ | o
    · rfl
    · rfl
  rw [hjoin, hjoin, h]

end Store
end Database
end Locksmith
