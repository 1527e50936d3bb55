import Locksmith.Database.Matcher
import Locksmith.Proofs.Database.ClassKinds
import Locksmith.Proofs.Text.References

namespace Locksmith

theorem ObjId.visible_render (o : ObjId) : ∀ b ∈ o.render, 33 ≤ b.toNat ∧ b.toNat < 128 := by
  have hnumber (x : Int64) := (Decimal.spells_ofInt x).visible.2
  rw [render_eq, List.append_nil, Dbref.render_eq]
  refine List.forall_mem_append.2 ⟨List.forall_mem_cons.2 ⟨by decide, hnumber _⟩, ?_⟩
  exact List.forall_mem_cons.2 ⟨by decide, hnumber _⟩

theorem ObjId.trimBlanks_render (o : ObjId) : o.render.trimBlanks = o.render :=
  Bytes.trimBlanks_eq_self o.visible_render

namespace Object

variable {o o' : Object}

/-- The reference to the object means the other: it has the same number, and the time fits. -/
def Meant (o o' : Object) : Prop := o'.id = o.id ∧ (o.created < 0 ∨ o'.created = o.created)

theorem isFor_objId : o.objId.isFor o'.id o'.created = true ↔ o.Meant o' := by
  rw [ObjId.isFor, Bool.and_eq_true, Bool.or_eq_true, beq_iff_eq, beq_iff_eq, decide_eq_true_eq]
  exact and_congr eq_comm (or_congr_right eq_comm)

/-- A reference means no more than it says just if the time is not negative. -/
theorem meant_exact_iff (o : Object) :
    (∀ o' : Object, o.Meant o' ↔ o'.id = o.id ∧ o'.created = o.created) ↔ 0 ≤ o.created := by
  constructor
  · intro h
    refine Int64.not_lt.1 fun hnegative => ?_
    have hzero : (0 : Int64) = o.created :=
      ((h { o with created := 0 }).1 ⟨rfl, .inl hnegative⟩).2
    exact Int64.lt_irrefl (hzero ▸ hnegative)
  · intro h o'
    rw [Meant, or_iff_right (Int64.not_lt.2 h)]

def listing (os : List Object) : Bytes := Bytes.join " " ((os.map objId).map ObjId.render)

theorem fields_listing (os : List Object) :
    (listing os).fields = (os.map objId).map ObjId.render := by
  refine Bytes.fields_join (List.forall_mem_map.2 fun id _ => ⟨?_, id.visible_render⟩)
  rw [ObjId.render_eq]
  exact List.append_ne_nil_of_right_ne_nil _ (List.cons_ne_nil _ _)

end Object

namespace Database
namespace Store

variable {s : Store} {o : Object} {subject target viewer : Dbref}

/-- The number stands for an object that the reference to the given one means. -/
def MeantAt (s : Store) (d : Dbref) (o : Object) : Prop := ∃ o', s.get? d = some o' ∧ o.Meant o'

/-- The key can be compiled, and the subject passes it on the target just under the condition.
-/
def PassesIff (s : Store) (key : Key) (subject target : Dbref) (condition : Prop) : Prop :=
  ∃ code answer, Lock.ofKey (some key) = .ok code ∧
    s.machine.evaluate code subject target = pure answer ∧
    (answer = true ↔ condition)

/-- A search for the reference to an object finds an object that it means. -/
theorem matchObject_objId (s : Store) (player : Dbref) (o : Object) :
    s.MeantAt o.id o ∧ s.matchObject player o.objId.render = o.id ∨
      ¬s.MeantAt o.id o ∧ s.matchObject player o.objId.render = .failedMatch := by
  have hmatch : s.matchObject player o.objId.render = s.matchObjId o.objId.render := by
    have hcolon : o.objId.render.contains (Bytes.ofChar ':') = true := by
      rw [List.contains_eq_mem, decide_eq_true_eq, ObjId.render_eq]
      exact List.mem_append_right _ List.mem_cons_self
    rw [matchObject, o.objId.trimBlanks_render]
    exact if_pos hcolon
  rw [hmatch, matchObjId, ObjId.parse_render]
  dsimp only [Object.objId]
  split
  · rename_i o' ho'
    split
    · rename_i hfor
      have hmeant := Object.isFor_objId.1 hfor
      exact .inl ⟨⟨o', ho', hmeant⟩, hmeant.1⟩
    · rename_i hfor
      refine .inr ⟨?_, rfl⟩
      rintro ⟨o'', ho'', hmeant⟩
      cases ho'.symm.trans ho''
      exact hfor (Object.isFor_objId.2 hmeant)
  · rename_i hnone
    refine .inr ⟨?_, rfl⟩
    rintro ⟨o', ho', -⟩
    cases hnone.symm.trans ho'

theorem hasFlagClass_objId :
    s.hasFlagClass ClassTable.objIdName subject viewer o.objId.render = true ↔
    s.MeantAt subject o := by
  have hupper : ClassTable.objIdName.toUpper = ClassTable.objIdName := by decide +kernel
  rw [hasFlagClass, o.objId.trimBlanks_render, hupper, Option.any_eq_true]
  refine exists_congr fun o' => and_congr_right fun _ => ?_
  dsimp only
  rw [if_neg (by decide), if_neg (by decide), if_neg (by decide), if_pos rfl,
    ObjId.parse_render]
  exact Object.isFor_objId

/-- Whether an entry of a list means the subject. Of one with a negative time nothing is asked
but its number, so the subject need not be there any more. -/
def accepts (s : Store) (subject target : Dbref) (id : ObjId) : Bool :=
  id.ref = subject &&
    (id.created < 0 || s.hasFlagClass ClassTable.objIdName subject target id.render)

theorem accepts_objId :
    s.accepts subject target o.objId = true ↔
    o.id = subject ∧ (o.created < 0 ∨ s.MeantAt subject o) := by
  rw [accepts, Bool.and_eq_true, Bool.or_eq_true, decide_eq_true_eq, decide_eq_true_eq,
    hasFlagClass_objId]
  exact Iff.rfl

/-- The entries of a list are gone through until one means the subject. -/
theorem isListed_render (s : Store) (subject target : Dbref) (ids : List ObjId) :
    s.machine.isListed subject target (ids.map ObjId.render) =
      pure (ids.any (s.accepts subject target)) := by
  induction ids with
  | nil => rfl
  | cons id ids ih =>
    rw [List.map_cons, Machine.isListed, ObjId.parse_render, List.any_cons, accepts]
    dsimp only
    by_cases href : id.ref = subject
    · rw [if_neg (not_not.2 href), decide_eq_true href, Bool.true_and]
      by_cases hnegative : id.created < 0
      · rw [if_pos hnegative, decide_eq_true hnegative, Bool.true_or, Bool.true_or]
      · rw [if_neg hnegative, decide_eq_false hnegative, Bool.false_or, ih]
        change (if s.hasFlagClass ClassTable.objIdName subject target id.render =
          true then _ else _) = _
        cases s.hasFlagClass ClassTable.objIdName subject target id.render with
        | false => rfl
        | true => rfl
    · rw [if_pos href, decide_eq_false href, Bool.false_and, Bool.false_or, ih]

/-- A key for the reference to an object is passed by the objects that it means. -/
theorem passesIff_objId (hclass : s.settings.classes.get? ClassTable.objIdName = some .objId)
    (pos : Nat) :
    s.PassesIff (.flagClass pos ClassTable.objIdName o.objId.render) subject target
      (s.MeantAt subject o) := by
  have hzero : (0 : UInt8) ∉ o.objId.render := by
    intro hmem
    have hlow : ¬33 ≤ (0 : UInt8).toNat := by decide
    exact hlow (o.objId.visible_render 0 hmem).1
  refine ⟨_, _, Lock.ofKey_class .., ?_, @hasFlagClass_objId s o subject target⟩
  rw [s.machine.evaluate_ofClass (by decide) (by decide) hclass, testClass_leftToWorld rfl,
    Bytes.upToZero_eq_self.2 hzero]

def listName : Bytes := "DBREFLIST"

/-- A key for a list of references is passed by the objects that one of them means. -/
theorem passesIff_list {os : List Object} {name : Bytes}
    (hclass : s.settings.classes.get? listName = some .dbrefList) (hzero : 0 ∉ name)
    (hread : s.canReadAttribute target target name = true)
    (hlist : s.attribute? target name = some (Object.listing os)) (pos : Nat) :
    s.PassesIff (.flagClass pos listName name) subject target
      (∃ o ∈ os, o.id = subject ∧ (o.created < 0 ∨ s.MeantAt subject o)) := by
  refine ⟨_, (os.map Object.objId).any (s.accepts subject target), Lock.ofKey_class .., ?_, ?_⟩
  · rw [s.machine.evaluate_ofClass (by decide) (by decide) hclass,
      Bytes.upToZero_eq_self.2 hzero]
    simp only [Machine.testClass, machine, world, pure_bind, hread, hlist,
      Object.fields_listing, Bool.not_true, Bool.false_eq_true, if_false]
    exact s.isListed_render subject target _
  · rw [List.any_map, List.any_eq_true]
    exact exists_congr fun o => and_congr_right fun _ => accepts_objId

/-- The reference that is written for an object is read back as it is. It means just the objects
with this number and time unless the time is negative, and then all with the number. So it goes
for the search, for keys and for lists. -/
theorem objId_singles_out (o : Object) :
    ObjId.parse o.objId.render = .ok o.objId ∧
    (∀ o' : Object, o.objId.isFor o'.id o'.created = true ↔ o.Meant o') ∧
    ((∀ o' : Object, o.objId.isFor o'.id o'.created = true ↔
      o'.id = o.id ∧ o'.created = o.created) ↔
      0 ≤ o.created) ∧
    ∀ (s : Store) (subject target : Dbref),
      (s.MeantAt o.id o ∧ s.matchObject subject o.objId.render = o.id ∨
        ¬s.MeantAt o.id o ∧ s.matchObject subject o.objId.render = .failedMatch) ∧
      (s.settings.classes.get? ClassTable.objIdName = some .objId → ∀ pos : Nat,
        s.PassesIff (.flagClass pos ClassTable.objIdName o.objId.render) subject target
          (s.MeantAt subject o)) ∧
      (s.settings.classes.get? listName = some .dbrefList →
        ∀ (os : List Object) (name : Bytes), 0 ∉ name →
          s.canReadAttribute target target name = true →
        s.attribute? target name = some (Object.listing os) → ∀ pos : Nat,
        s.PassesIff (.flagClass pos listName name) subject target
          (∃ o ∈ os, o.id = subject ∧ (o.created < 0 ∨ s.MeantAt subject o))) := by
  refine ⟨o.objId.parse_render, fun _ => Object.isFor_objId, ?_,
    fun s subject target => ⟨?_, ?_, ?_⟩⟩
  · rw [← o.meant_exact_iff]
    exact forall_congr' fun o' => iff_congr Object.isFor_objId Iff.rfl
  · exact s.matchObject_objId subject o
  · exact passesIff_objId
  · exact fun hclass os name => passesIff_list hclass

/-- An object of a certain time that keeps a list of references. -/
def reader (created : Int64) (list : List Object) : Object :=
  ({ Object.new 3 3 with created }).setAttribute "FRIENDS" (Object.listing list) ⟨0⟩

def library (created : Int64) (list : List Object) : Store :=
  (Operation.performAll (Operation.start .standard .none)
    [.add (reader created list) rfl]).store

/-- What is written for an object of a negative time means one that came later: the search for
it finds the other. -/
theorem objId_means_another :
    (reader (-5) []).objId.render = "#3:-5" ∧ ObjId.parse "#3:-5" = .ok (reader (-5) []).objId ∧
    (reader (-5) []).objId.isFor (reader 100 []).id (reader 100 []).created = true ∧
    (reader 100 []).created ≠ (reader (-5) []).created ∧
    (library 100 []).matchObject 3 "#3:-5" = 3 := by
  decide +kernel

/-- The reader of time 100 passes a key for itself, and a list does not name it by another time.
-/
theorem objId_singles_out_reader :
    (library 100 [reader 99 []]).PassesIff
    (.flagClass 0 ClassTable.objIdName (reader 100 []).objId.render) 3 3
      ((library 100 [reader 99 []]).MeantAt 3 (reader 100 [])) ∧
    (library 100 [reader 99 []]).MeantAt 3 (reader 100 []) ∧
    (library 100 [reader 99 []]).PassesIff (.flagClass 0 listName "FRIENDS") 3 3
      (∃ o ∈ [reader 99 []], o.id = 3 ∧
        (o.created < 0 ∨ (library 100 [reader 99 []]).MeantAt 3 o)) ∧
    ¬(library 100 [reader 99 []]).MeantAt 3 (reader 99 []) := by
  have hkeys := (objId_singles_out (reader 100 [])).2.2.2 (library 100 [reader 99 []]) 3 3
  refine ⟨hkeys.2.1 (by decide +kernel) 0, ⟨_, rfl, rfl, .inr rfl⟩, ?_, ?_⟩
  · exact hkeys.2.2 (by decide +kernel) [reader 99 []] "FRIENDS" (by decide) (by decide +kernel)
      (by decide +kernel) 0
  · rintro ⟨o, ho, -, htime⟩
    cases ho
    revert htime
    decide +kernel

end Store
end Database
end Locksmith
