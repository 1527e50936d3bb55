import Locksmith.Database.Locks
import Locksmith.Proofs.Database.Likeness
import Locksmith.Proofs.Database.Ownership
import Locksmith.Proofs.Database.Privacy

namespace Locksmith

def Object.withoutValue (o : Object) (name : Bytes) : Object :=
  match o.attribute? name with
  | none => o
  | some a => { o with attributes := o.attributes.insert name.toUpper { a with value := [] } }

namespace Object

theorem attribute?_withoutValue (o : Object) (name name' : Bytes) :
    (o.withoutValue name).attribute? name' =
      if name'.toUpper = name.toUpper then (o.attribute? name).map ({ · with value := [] })
      else o.attribute? name' := by
  unfold withoutValue
  rcases ha : o.attribute? name with _ | a
  · dsimp only
    split
    · rename_i hname
      rw [attribute?, hname]
      exact ha
    · rfl
  · dsimp only [attribute?]
    split
    · rename_i hname
      rw [hname, SortedMap.get?_insert_self]
      rfl
    · rename_i hname
      exact SortedMap.get?_insert_of_ne _ _ hname

theorem bare_withoutValue (o : Object) (name : Bytes) :
    (o.withoutValue name).bare = o.bare := by
  unfold withoutValue
  split
  · rfl
  · rfl

theorem lock?_withoutValue (o : Object) (name lock : Bytes) :
    (o.withoutValue name).lock? lock = o.lock? lock := by
  unfold withoutValue
  split
  · rfl
  · rfl

end Object

/-- The code of `SEX:m`. -/
def maleCode : Bytes := [3, 15, 0, 0, 0, 13, 19, 0, 0, 0, 0, 0, 0, 0, 0, 83, 69, 88, 0, 109, 0]

theorem Machine.evaluate_maleCode {m : Type → Type} [Monad m] [LawfulMonad m] (v : Machine m)
    (subject target : Dbref) :
    v.evaluate (some maleCode) subject target = v.testAttr subject target "SEX" "m" := by
  have hload : Bytecode.fetch maleCode 0 = .ok ⟨.loadText, 15⟩ := rfl
  have htest : Bytecode.fetch maleCode 5 = .ok ⟨.testAttr, 19⟩ := rfl
  have hret : Bytecode.fetch maleCode 10 = .ok ⟨.ret, 0⟩ := rfl
  have hname : Bytecode.textAt maleCode 15 = .ok "SEX" := rfl
  have hpattern : Bytecode.textAt maleCode 19 = .ok "m" := rfl
  have hwidth : Bytecode.insnWidth = 5 := rfl
  rw [evaluate, run_some, runCode, v.verdictFrom_of_fetch hload]
  simp only [execute, hname, pure_bind, resume, Nat.zero_add, hwidth]
  rw [v.verdictFrom_of_fetch htest]
  simp only [execute, hpattern, bind_assoc, pure_bind, resume, hwidth, Nat.reduceAdd,
    v.verdictFrom_of_fetch hret]
  exact bind_pure _

namespace Database

/-- Two databases that differ in the value of one attribute of the object at `x` only. -/
structure Revalued (s s' : Store) (x : Dbref) (name : Bytes) : Prop where
  settings : s'.settings = s.settings
  channels : s'.channels = s.channels
  chunks : s'.chunks = s.chunks
  others : ∀ d, d ≠ x → s'.get? d = s.get? d
  object : (s'.get? x).map (·.withoutValue name) = (s.get? x).map (·.withoutValue name)

namespace Revalued

variable {s s' : Store} {x : Dbref} {name : Bytes}

theorem symm (h : Revalued s s' x name) : Revalued s' s x name where
  settings := h.settings.symm
  channels := h.channels.symm
  chunks := h.chunks.symm
  others d hd := (h.others d hd).symm
  object := h.object.symm

variable (h : Revalued s s' x name)
include h

/-- What does not depend on the value is the same. -/
theorem map {α : Type} {f : Object → α} (hf : ∀ o, f (o.withoutValue name) = f o) (d : Dbref) :
    (s'.get? d).map f = (s.get? d).map f := by
  by_cases hd : d = x
  · rw [hd]
    exact Object.map_congr_of_erase hf h.object
  · rw [h.others d hd]

theorem alike : Store.Alike s s' := h.map fun o => o.bare_withoutValue name

theorem lock? (d : Dbref) (lock : Bytes) :
    (s'.get? d).map (·.lock? lock) = (s.get? d).map (·.lock? lock) := by
  apply h.map
  intro o
  rw [o.lock?_withoutValue]

theorem attributeFlags (d : Dbref) (name' : Bytes) :
    (s'.get? d).map (fun o => (o.attribute? name').map (·.flags)) =
      (s.get? d).map fun o => (o.attribute? name').map (·.flags) := by
  apply h.map
  intro o
  rw [o.attribute?_withoutValue]
  split
  · rename_i hname
    rw [Option.map_map, Object.attribute?, Object.attribute?, hname]
    rfl
  · rfl

theorem canReadAttribute (viewer d : Dbref) (name' : Bytes) :
    s'.canReadAttribute viewer d name' = s.canReadAttribute viewer d name' :=
  h.alike.canReadAttribute (h.attributeFlags d name') viewer

theorem attribute? {d : Dbref} {name' : Bytes} (hne : d = x → name'.toUpper ≠ name.toUpper) :
    s'.attribute? d name' = s.attribute? d name' := by
  by_cases hd : d = x
  · apply Store.attribute?_congr
    apply h.map
    intro o
    rw [o.attribute?_withoutValue, if_neg (hne hd)]
  · rw [Store.attribute?, Store.attribute?, h.others d hd]

theorem canReadLock (viewer d : Dbref) (lock : Bytes) :
    s'.canReadLock viewer d lock = s.canReadLock viewer d lock := by
  apply h.alike.canReadLock
  apply h.map
  intro o
  rw [o.lock?_withoutValue]

theorem findLock (d : Dbref) (lock : Bytes) : s'.findLock d lock = s.findLock d lock := by
  apply Store.findLock_congr
  · exact h.lock? d (lockName lock)
  · intro l _
    rw [h.chunks]

theorem machine_eq :
    s'.machine = s.machine.reattribute s'.world.attr s'.world.evalAttribute := by
  simp only [Store.machine, Machine.reattribute, Store.world, Store.notify,
    Store.canSeeConnection, Store.onChannel, Store.channel?, h.settings, h.channels,
    h.alike.isValid, h.alike.owner, h.alike.carries, h.findLock, h.canReadLock,
    h.canReadAttribute, h.alike.hasFlagClass, h.alike.oversees, h.alike.leastIdle,
    h.alike.canSeeChannel h.channels]

theorem concealed {viewer : Dbref} (hviewer : s.canReadAttribute viewer x name = false)
    (d : Dbref) (name' : Bytes) :
    s.machine.Concealed s'.world.attr s'.world.evalAttribute viewer d name' := by
  by_cases hsame : d = x ∧ name'.toUpper = name.toUpper
  · obtain ⟨rfl, hname⟩ := hsame
    refine .inl fun _ => ?_
    change s.canReadAttribute viewer d name' = false
    simpa only [Store.canReadAttribute, Object.attribute?, hname] using hviewer
  · have hne : d = x → name'.toUpper ≠ name.toUpper := fun hd hname => hsame ⟨hd, hname⟩
    refine .inr ⟨?_, ?_⟩
    · change pure _ = pure _
      rw [h.attribute? hne]
    · funext enactor
      change pure _ = pure _
      rw [h.alike.evalAttribute (h.attribute? hne)]

/-- The value makes no difference to an evaluation in which nothing acts as target that may read
it. -/
theorem evaluate_eq {code : LockCode} {subject target : Dbref} {journal : List Event}
    (hblind : ∀ t ∈ (s.machine.transcribe code subject target journal).1.2.flatMap Mark.targets,
      s.canReadAttribute t x name = false) :
    s'.machine.evaluate code subject target journal =
      s.machine.evaluate code subject target journal := by
  have hmax : s'.machine.maxDepth = s.machine.maxDepth := congrArg Settings.maxDepth h.settings
  have hsteps : Machine.StepsAlikeOn
      (fun k => ∃ t ∈ k.targets, s.canReadAttribute t x name ≠ false)
      (fun t => s.canReadAttribute t x name = false) s.machine s'.machine := by
    rw [h.machine_eq]
    apply Machine.stepsAlikeOn_of_attributes
    · intro viewer d name' hviewer
      exact h.concealed hviewer d name'
    · intro viewer object lock hclean
      by_contra hread
      exact hclean ⟨object, List.mem_cons_of_mem _ List.mem_cons_self, hread⟩
  apply Machine.evaluate_eq_of_lockstepOn hsteps rfl hmax
  · intro hclean
    by_contra hread
    exact hclean ⟨target, List.mem_cons_self, hread⟩
  · rintro k hk ⟨t, ht, hread⟩
    exact hread (hblind t (List.mem_flatMap.2 ⟨k, hk, ht⟩))

end Revalued

namespace Store

variable {s s' : Store} {x : Dbref} {name : Bytes}

def lockTargets (s : Store) (subject d : Dbref) (lock : Bytes) (journal : List Event) :
    List Dbref :=
  match (s.findLock d (lockName lock)).code with
  | .ok code => (s.machine.transcribe code subject d journal).1.2.flatMap Mark.targets
  | .error _ => []

theorem checkLock_congr {subject d : Dbref} {lock : Bytes} {journal : List Event}
    (hsettings : s'.settings = s.settings)
    (hfind : s'.findLock d (lockName lock) = s.findLock d (lockName lock))
    (heval : ∀ code, (s.findLock d (lockName lock)).code = .ok code →
      s'.machine.evaluate code subject d journal = s.machine.evaluate code subject d journal) :
    s'.checkLock subject d lock journal = s.checkLock subject d lock journal := by
  have hbind {α β : Type} {y z : Journaled α} (f : α → Journaled β)
      (hyz : y journal = z journal) :
      (y >>= f) journal = (z >>= f) journal := by
    change f (y journal).1 (y journal).2 = f (z journal).1 (z journal).2
    rw [hyz]
  simp only [checkLock, hsettings, hfind]
  rcases hcode : (s.findLock d (lockName lock)).code with e | code
  · rfl
  · exact hbind _ (heval code hcode)

theorem checkLock_revalued (h : Revalued s s' x name) {subject d : Dbref} {lock : Bytes}
    {journal : List Event}
    (hblind : ∀ t ∈ s.lockTargets subject d lock journal, s.canReadAttribute t x name = false) :
    s'.checkLock subject d lock journal = s.checkLock subject d lock journal := by
  apply checkLock_congr h.settings (h.findLock d _)
  intro code hcode
  rw [lockTargets, hcode] at hblind
  exact h.evaluate_eq hblind

/-- If a check of a lock comes out differently, or says something else, with another value of an
attribute, then among the objects that acted as target there is one that may read the attribute,
with the one value as with the other. -/
theorem unreadable_attribute (h : Revalued s s' x name) (subject d : Dbref) (lock : Bytes)
    (journal : List Event)
    (hdiff : s'.checkLock subject d lock journal ≠ s.checkLock subject d lock journal) :
    (∃ t ∈ s.lockTargets subject d lock journal, s.canReadAttribute t x name = true) ∧
      ∃ t ∈ s'.lockTargets subject d lock journal, s'.canReadAttribute t x name = true := by
  constructor
  · by_contra hnone
    apply hdiff
    apply checkLock_revalued h
    intro t ht
    exact Bool.eq_false_iff.2 fun hread => hnone ⟨t, ht, hread⟩
  · by_contra hnone
    apply hdiff
    symm
    apply checkLock_revalued h.symm
    intro t ht
    exact Bool.eq_false_iff.2 fun hread => hnone ⟨t, ht, hread⟩

theorem fst_checkLock {subject d : Dbref} {lock : Bytes} {journal : List Event}
    {code : LockCode} (h : (s.findLock d (lockName lock)).code = .ok code) :
    (s.checkLock subject d lock journal).1 = (s.machine.evaluate code subject d journal).1 := by
  simp only [checkLock, h]
  rfl

/-- A player with a private attribute, and a thing of theirs with a lock. -/
def register (chunks : Chunk.Store) (value : Bytes) : Store :=
  ⟨.standard,
    (SortedMap.empty.insert 1
      (.live ((Object.new 1 1).setAttribute "SEX" value .privately))).insert 2
      (.live ((Object.new 2 1).putLock ⟨defaultLock, 1, ⟨0⟩, ⟨1⟩⟩)),
    .empty, chunks⟩

theorem revalued_register (chunks : Chunk.Store) (value value' : Bytes) :
    Revalued (register chunks value) (register chunks value') 1 "sex" where
  settings := rfl
  channels := rfl
  chunks := rfl
  others d hd := by
    rw [get?, get?, register, register]
    by_cases hd' : d = 2
    · rw [hd', SortedMap.get?_insert_self, SortedMap.get?_insert_self]
    · rw [SortedMap.get?_insert_of_ne _ _ hd', SortedMap.get?_insert_of_ne _ _ hd',
        SortedMap.get?_insert_of_ne _ _ hd, SortedMap.get?_insert_of_ne _ _ hd]
  object := rfl

theorem code_register (value : Bytes) :
    ((register (vaultChunks maleCode) value).findLock 2 (lockName [])).code =
      .ok (some maleCode) := by
  have hfetch :
      (register (vaultChunks maleCode) value).chunks.fetch ⟨1⟩ = .ok (some maleCode) :=
    fetch_vaultChunks maleCode (by decide)
  change (register (vaultChunks maleCode) value).codeOf 2 defaultLock
    ⟨defaultLock, 1, ⟨0⟩, ⟨1⟩⟩ = _
  rw [codeOf, hfetch]
  rfl

theorem canReadAttribute_register (chunks : Chunk.Store) (value : Bytes) :
    (register chunks value).canReadAttribute 2 1 "SEX" = true := by
  have hget :
      (register chunks value).get? 1 =
        some ((Object.new 1 1).setAttribute "SEX" value .privately) := rfl
  have hattr : ((Object.new 1 1).setAttribute "SEX" value .privately).attribute? "SEX" =
      some ⟨"SEX", value, 1, .privately⟩ := rfl
  have hhidden : AttrFlags.privately.has .hidden = false := by decide
  have hcontrols : (register chunks value).controls 2 1 = true := by
    change (false || (Object.new 2 1).flags.has .wizard ||
      !(Object.new 1 1).flags.has .wizard && decide ((1 : Dbref) = 1)) = true
    decide
  simp only [canReadAttribute, hget, hattr, hhidden, oversees, hcontrols, Option.any_some,
    Bool.true_or, ite_self]
  rfl

theorem attribute?_register (chunks : Chunk.Store) (value : Bytes) :
    (register chunks value).attribute? 1 "SEX" = some value := rfl

theorem evaluate_register (chunks : Chunk.Store) (value : Bytes) :
    (register chunks value).machine.evaluate (some maleCode) 1 2 [] =
      (Wildcard.isMatch "m" value, []) := by
  rw [Machine.evaluate_maleCode]
  simp only [Machine.testAttr, machine, world, canReadAttribute_register, attribute?_register,
    pure_bind]
  rfl

theorem unreadable_attribute_register :
    Revalued (register (vaultChunks maleCode) "m")
      (register (vaultChunks maleCode) "f") 1 "sex" ∧
      (register (vaultChunks maleCode) "f").checkLock 1 2 [] [] ≠
        (register (vaultChunks maleCode) "m").checkLock 1 2 [] [] ∧
      ∃ t ∈ (register (vaultChunks maleCode) "m").lockTargets 1 2 [] [],
        (register (vaultChunks maleCode) "m").canReadAttribute t 1 "sex" = true := by
  have hrevalued := revalued_register (vaultChunks maleCode) "m" "f"
  have hdiff : (register (vaultChunks maleCode) "f").checkLock 1 2 [] [] ≠
      (register (vaultChunks maleCode) "m").checkLock 1 2 [] [] := by
    intro heq
    have hfst := congrArg Prod.fst heq
    rw [fst_checkLock (code_register _), fst_checkLock (code_register _), evaluate_register,
      evaluate_register] at hfst
    have hmale : Wildcard.isMatch "m" "m" = true := by cbv
    have hfemale : Wildcard.isMatch "m" "f" = false := by cbv
    exact Bool.false_ne_true (hfemale.symm.trans (hfst.trans hmale))
  exact ⟨hrevalued, hdiff, (unreadable_attribute hrevalued 1 2 [] [] hdiff).1⟩

end Store
end Database
end Locksmith
