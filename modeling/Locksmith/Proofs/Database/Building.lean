import Locksmith.Database.Load
import Locksmith.Proofs.Data.SortedMap

namespace Locksmith
namespace Database

namespace AttributeSpec

variable {a b : AttributeSpec}

/-- All flags of an attribute are known. -/
def Known (a : AttributeSpec) : Prop := ∃ flags, AttrFlags.ofNames a.flags = .ok flags

def Agrees (a b : AttributeSpec) : Prop :=
  a.value = b.value ∧ AttrFlags.ofNames a.flags = AttrFlags.ofNames b.flags

/-- The attribute that a written one becomes. -/
def made? (a : AttributeSpec) (key : Bytes) (owner : Dbref) : Option Attribute :=
  (AttrFlags.ofNames a.flags).toOption.map fun flags => ⟨key, a.value, owner, flags⟩

theorem made?_eq_some {flags : AttrFlags} (h : AttrFlags.ofNames a.flags = .ok flags)
    (key : Bytes) (owner : Dbref) :
    a.made? key owner = some ⟨key, a.value, owner, flags⟩ := by
  rw [made?, h]
  rfl

theorem made?_eq_iff (ha : a.Known) (hb : b.Known) (key : Bytes) (owner : Dbref) :
    a.made? key owner = b.made? key owner ↔ a.Agrees b := by
  obtain ⟨flags, hflags⟩ := ha
  obtain ⟨flags', hflags'⟩ := hb
  rw [made?_eq_some hflags, made?_eq_some hflags', Agrees, hflags, hflags']
  simp

end AttributeSpec

variable {o o' : Object} {attributes : List (Bytes × AttributeSpec)} {key : Bytes}

/-- The last of some attributes whose name is `key` in upper case. -/
def lastNamed? (key : Bytes) (attributes : List (Bytes × AttributeSpec)) :
    Option AttributeSpec :=
  (attributes.reverse.find? (·.1.toUpper = key)).map (·.2)

theorem lastNamed?_cons (key : Bytes) (e : Bytes × AttributeSpec)
    (rest : List (Bytes × AttributeSpec)) :
    lastNamed? key (e :: rest) =
      (lastNamed? key rest).or (if e.1.toUpper = key then some e.2 else none) := by
  unfold lastNamed?
  rw [List.reverse_cons, List.find?_append, Option.map_or]
  by_cases hkey : e.1.toUpper = key
  · simp [hkey]
  · simp [hkey]

theorem lastNamed?_concat (attributes : List (Bytes × AttributeSpec))
    (e : Bytes × AttributeSpec) :
    lastNamed? e.1.toUpper (attributes ++ [e]) = some e.2 := by
  simp [lastNamed?]

theorem mem_of_lastNamed? {a : AttributeSpec} (h : lastNamed? key attributes = some a) :
    ∃ e ∈ attributes, e.1.toUpper = key ∧ e.2 = a := by
  obtain ⟨e, he, rfl⟩ := Option.map_eq_some_iff.1 h
  refine ⟨e, List.mem_reverse.1 (List.mem_of_find?_eq_some he), ?_, rfl⟩
  simpa using List.find?_some he

theorem exists_lastNamed? {e : Bytes × AttributeSpec} (he : e ∈ attributes)
    (hkey : e.1.toUpper = key) :
    ∃ a, lastNamed? key attributes = some a := by
  rw [← Option.isSome_iff_exists, lastNamed?, Option.isSome_map, List.find?_isSome]
  exact ⟨e, List.mem_reverse.2 he, decide_eq_true hkey⟩

/-- The object after some attributes were taken up: of those with one name the last counts. -/
def Furnished (o o' : Object) (attributes : List (Bytes × AttributeSpec)) : Prop :=
  o' = { o with attributes := o'.attributes } ∧ ∀ key, o'.attributes.get? key =
    ((lastNamed? key attributes).bind fun a => a.made? key o.owner).or (o.attributes.get? key)

theorem known_of_addAttributes
    (h : attributes.foldlM (fun o e => addAttribute o e.1 e.2) o = .ok o') :
    ∀ e ∈ attributes, e.2.Known := by
  induction attributes generalizing o with
  | nil => exact List.forall_mem_nil _
  | cons e rest ih =>
    rw [List.foldlM_cons, addAttribute] at h
    rcases hflags : AttrFlags.ofNames e.2.flags with _ | flags
    · rw [hflags] at h
      cases h
    · rw [hflags] at h
      exact List.forall_mem_cons.2 ⟨⟨flags, hflags⟩, ih h⟩

theorem exists_addAttributes (h : ∀ e ∈ attributes, e.2.Known) (o : Object) :
    ∃ o', attributes.foldlM (fun o e => addAttribute o e.1 e.2) o = .ok o' ∧
      Furnished o o' attributes := by
  induction attributes generalizing o with
  | nil => exact ⟨o, rfl, rfl, fun _ => rfl⟩
  | cons e rest ih =>
    obtain ⟨⟨flags, hflags⟩, hrest⟩ := List.forall_mem_cons.1 h
    obtain ⟨o', hfold, hsame, hget⟩ := ih hrest (o.setAttribute e.1 e.2.value flags)
    refine ⟨o', ?_, hsame, ?_⟩
    · rw [List.foldlM_cons, addAttribute, hflags]
      exact hfold
    · intro key
      rw [hget, lastNamed?_cons, Object.setAttribute]
      rcases hlast : lastNamed? key rest with _ | a
      · by_cases hkey : e.1.toUpper = key
        · rw [hkey, if_pos rfl, SortedMap.get?_insert_self, Option.none_or, Option.bind_some,
            AttributeSpec.made?_eq_some hflags]
          rfl
        · rw [if_neg hkey, SortedMap.get?_insert_of_ne _ _ (Ne.symm hkey)]
          rfl
      · obtain ⟨e', he', -, rfl⟩ := mem_of_lastNamed? hlast
        obtain ⟨flags', hflags'⟩ := hrest e' he'
        simp only [Option.some_or, Option.bind_some, AttributeSpec.made?_eq_some hflags']

namespace ObjectSpec

variable {spec : ObjectSpec}

/-- The number is that of an object, and type and flags are known. -/
structure Named (spec : ObjectSpec) : Prop where
  number : spec.id.isSentinel = false
  type : ∃ type, spec.readType = .ok type
  flags : ∃ flags, ObjectFlags.ofNames spec.flags = .ok flags

/-- The object before any attribute is taken up. -/
def frame (spec : ObjectSpec) : Except LoadError Object := { spec with attributes := [] }.build

theorem build_eq_bind (spec : ObjectSpec) :
    spec.build = spec.frame.bind fun o =>
      spec.attributes.foldlM (fun o e => addAttribute o e.1 e.2) o := by
  unfold frame build
  dsimp only
  split
  · rfl
  · change spec.readType.bind _ = Except.bind (spec.readType.bind _) _
    rcases spec.readType with _ | type
    · rfl
    · rcases ObjectFlags.ofNames spec.flags with _ | flags
      · rfl
      · rfl

theorem frame_spec (h : spec.frame = .ok o) :
    spec.Named ∧ o.id = spec.id ∧ o.attributes = .empty := by
  unfold frame build at h
  dsimp only at h
  split at h
  · cases h
  rename_i hsentinel
  rw [show readType { spec with attributes := [] } = spec.readType from rfl] at h
  rcases htype : spec.readType with _ | type
  · rw [htype] at h
    cases h
  rw [htype] at h
  rcases hflags : ObjectFlags.ofNames spec.flags with _ | flags
  · rw [hflags] at h
    cases h
  rw [hflags] at h
  cases h
  exact ⟨⟨Bool.eq_false_iff.2 hsentinel, ⟨type, htype⟩, flags, hflags⟩, rfl, rfl⟩

theorem exists_frame (h : spec.Named) : ∃ o, spec.frame = .ok o := by
  obtain ⟨hsentinel, ⟨type, htype⟩, flags, hflags⟩ := h
  unfold frame build
  dsimp only
  rw [hsentinel, show readType { spec with attributes := [] } = spec.readType from rfl,
    htype, hflags]
  exact ⟨_, rfl⟩

/-- An object is built with its attributes if there is something to build them on and their
flags are known. -/
theorem build_eq_ok_iff :
    spec.build = .ok o' ↔
      ∃ o, spec.frame = .ok o ∧ (∀ e ∈ spec.attributes, e.2.Known) ∧
        Furnished o o' spec.attributes := by
  rw [build_eq_bind]
  constructor
  · intro h
    rcases hframe : spec.frame with _ | o
    · rw [hframe] at h
      cases h
    · rw [hframe] at h
      have hknown := known_of_addAttributes h
      obtain ⟨o'', hfold, hfurnished⟩ := exists_addAttributes hknown o
      obtain rfl : o'' = o' := Except.ok.inj (hfold.symm.trans h)
      exact ⟨o, rfl, hknown, hfurnished⟩
  · rintro ⟨o, hframe, hknown, hsame, hget⟩
    obtain ⟨o'', hfold, hsame', hget'⟩ := exists_addAttributes hknown o
    have hattributes : o''.attributes = o'.attributes := SortedMap.ext_get? fun key =>
      (hget' key).trans (hget key).symm
    rw [hframe]
    change spec.attributes.foldlM _ o = _
    rw [hfold, hsame', hsame, hattributes]

theorem exists_build (h : spec.Named) (hknown : ∀ e ∈ spec.attributes, e.2.Known) :
    ∃ o, spec.build = .ok o := by
  obtain ⟨base, hframe⟩ := exists_frame h
  obtain ⟨o, -, hfurnished⟩ := exists_addAttributes hknown base
  exact ⟨o, build_eq_ok_iff.2 ⟨base, hframe, hknown, hfurnished⟩⟩

theorem build_spec (h : spec.build = .ok o) : spec.Named ∧ o.id = spec.id := by
  obtain ⟨base, hframe, -, hsame, -⟩ := build_eq_ok_iff.1 h
  obtain ⟨hnamed, hid, -⟩ := frame_spec hframe
  rw [hsame]
  exact ⟨hnamed, hid⟩

/-- Attributes whose names differ in case only say the same. -/
def Unambiguous (spec : ObjectSpec) : Prop :=
  ∀ a ∈ spec.attributes, ∀ b ∈ spec.attributes, a.1.toUpper = b.1.toUpper → a.2.Agrees b.2

/-- In whatever order its attributes are taken up an object is built, and differs in nothing but
them. -/
theorem exists_build_of_perm (h : spec.build = .ok o)
    (hperm : attributes.Perm spec.attributes) :
    ∃ o', { spec with attributes }.build = .ok o' ∧
      o' = { o with attributes := o'.attributes } ∧
      ∀ key, o'.attributes.get? key =
        (lastNamed? key attributes).bind fun a => a.made? key o.owner := by
  obtain ⟨base, hframe, hknown, hsame, -⟩ := build_eq_ok_iff.1 h
  have howner : o.owner = base.owner := by rw [hsame]
  have hknown' : ∀ e ∈ attributes, e.2.Known := fun e he => hknown e (hperm.mem_iff.1 he)
  obtain ⟨o', -, hfurnished⟩ := exists_addAttributes hknown' base
  refine ⟨o', build_eq_ok_iff.2 ⟨base, hframe, hknown', hfurnished⟩, ?_, ?_⟩
  · rw [hfurnished.1, hsame]
  · intro key
    rw [hfurnished.2, (frame_spec hframe).2.2, SortedMap.get?_empty, Option.or_none, howner]

theorem get?_of_build (h : spec.build = .ok o) (key : Bytes) :
    o.attributes.get? key =
      (lastNamed? key spec.attributes).bind fun a => a.made? key o.owner := by
  obtain ⟨o', hbuild, -, hget⟩ := exists_build_of_perm h (.refl _)
  obtain rfl : o' = o := Except.ok.inj (hbuild.symm.trans h)
  exact hget key

/-- The order of the attributes never matters just if those that may take each other's place say
the same. -/
theorem forall_build_iff (h : spec.build = .ok o) :
    (∀ attributes : List (Bytes × AttributeSpec), attributes.Perm spec.attributes →
      { spec with attributes }.build = .ok o) ↔ spec.Unambiguous := by
  obtain ⟨-, -, hknown, -⟩ := build_eq_ok_iff.1 h
  constructor
  · -- each of two attributes may be the last one
    intro hall a ha b hb hname
    have hlast (e : Bytes × AttributeSpec) (he : e ∈ spec.attributes) :
        o.attributes.get? e.1.toUpper = e.2.made? e.1.toUpper o.owner := by
      have hperm : (spec.attributes.erase e ++ [e]).Perm spec.attributes :=
        (List.perm_append_singleton e _).trans (List.perm_cons_erase he).symm
      rw [get?_of_build (hall _ hperm), lastNamed?_concat, Option.bind_some]
    have hsaid := (hlast a ha).symm.trans (hname ▸ hlast b hb)
    exact (AttributeSpec.made?_eq_iff (hknown a ha) (hknown b hb) _ _).1 (hname ▸ hsaid)
  · intro hagree attributes hperm
    obtain ⟨o', hbuild, hsame, hget⟩ := exists_build_of_perm h hperm
    have hattributes : o'.attributes = o.attributes := by
      refine SortedMap.ext_get? fun key => ?_
      rw [hget, get?_of_build h]
      rcases hlast : lastNamed? key attributes with _ | a
      · rcases hlast' : lastNamed? key spec.attributes with _ | b
        · rfl
        · obtain ⟨e, he, hkey, -⟩ := mem_of_lastNamed? hlast'
          obtain ⟨a, ha⟩ := exists_lastNamed? (hperm.mem_iff.2 he) hkey
          cases hlast.symm.trans ha
      · obtain ⟨e, he, hkey, rfl⟩ := mem_of_lastNamed? hlast
        obtain ⟨b, hb⟩ := exists_lastNamed? (hperm.mem_iff.1 he) hkey
        obtain ⟨e', he', hkey', rfl⟩ := mem_of_lastNamed? hb
        rw [hb, Option.bind_some, Option.bind_some]
        have he := hperm.mem_iff.1 he
        exact (AttributeSpec.made?_eq_iff (hknown e he) (hknown e' he') key _).2
          (hagree e he e' he' (hkey.trans hkey'.symm))
    rw [hbuild, hsame, hattributes]

/-- In whatever order the attributes of an object are taken up, it is built, and of attributes
whose names differ in case only the last one counts. So the order never matters just if all such
attributes say the same. -/
theorem build_orders (h : spec.build = .ok o) :
    (∀ attributes : List (Bytes × AttributeSpec), attributes.Perm spec.attributes →
      ∃ o', { spec with attributes }.build = .ok o' ∧
        o' = { o with attributes := o'.attributes } ∧
        ∀ key, o'.attributes.get? key =
          (lastNamed? key attributes).bind fun a => a.made? key o.owner) ∧
    ((∀ attributes : List (Bytes × AttributeSpec), attributes.Perm spec.attributes →
      { spec with attributes }.build = .ok o) ↔ spec.Unambiguous) :=
  ⟨fun _ hperm => exists_build_of_perm h hperm, forall_build_iff h⟩

/-- A thing `#1` with some attributes. -/
def thing (attributes : List (Bytes × AttributeSpec)) : ObjectSpec where
  id := 1
  name := "Thing"
  type := []
  owner := none
  location := none
  flags := []
  powers := []
  aliases := []
  created := 0
  attributes
  locks := []
  connections := []

/-- A name that is written in two ways stands for the same value with the same flags. -/
theorem build_orders_repeated :
    let repeated : List (Bytes × AttributeSpec) :=
      [("a", ⟨"1", ["private"]⟩), ("B", ⟨"2", []⟩), ("A", ⟨"1", ["PRIVATE", "private"]⟩)]
    ∃ o, (thing repeated).build = .ok o ∧ (thing repeated).Unambiguous ∧
      ∀ attributes : List (Bytes × AttributeSpec), attributes.Perm repeated →
        (thing attributes).build = .ok o := by
  intro repeated
  have hagree : (thing repeated).Unambiguous := by
    unfold Unambiguous AttributeSpec.Agrees
    decide
  obtain ⟨o, hbuild⟩ : ∃ o, (thing repeated).build = .ok o := ⟨_, rfl⟩
  exact ⟨o, hbuild, hagree, (build_orders hbuild).2.2 hagree⟩

/-- Of `a` and `A` with different values the one taken up last is kept. -/
theorem build_order_matters :
    ¬∀ (spec : ObjectSpec) (o : Object) (attributes : List (Bytes × AttributeSpec)),
      (spec.attributes.map (·.1)).Nodup → spec.build = .ok o → attributes.Perm spec.attributes →
        { spec with attributes }.build = .ok o := by
  intro h
  let lower : Bytes × AttributeSpec := ("a", ⟨"1", []⟩)
  let upper : Bytes × AttributeSpec := ("A", ⟨"2", []⟩)
  have hsame : (thing [upper, lower]).build = (thing [lower, upper]).build :=
    h (thing [lower, upper]) _ [upper, lower] (by decide) rfl (List.Perm.swap lower upper [])
  have hvalue :=
    congrArg (fun out => (out.toOption.bind (·.attribute? "A")).map (·.value)) hsame
  revert hvalue
  decide

end ObjectSpec
end Database
end Locksmith
