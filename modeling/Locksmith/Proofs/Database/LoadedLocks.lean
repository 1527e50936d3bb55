import Locksmith.Proofs.Database.ShownLocks

namespace Locksmith
namespace Grammar

open Escape

variable {ctx ctx' : ParseContext} {p : Dbref → Prop} {level : Level} {last : Bool} {pos : Nat}
  {s text : Bytes} {key : Key} {d : Dbref}

/-- A context understands what another one does, as far as it is about objects that satisfy `p`.
-/
structure Understands (p : Dbref → Prop) (ctx ctx' : ParseContext) : Prop where
  lockType : ctx'.lockType = ctx.lockType
  classes : ∀ name, ctx.knows name = true → ctx'.knows name = true
  means : ∀ text d, p d → Means ctx text d → Means ctx' text d

theorem Names.transfer (h : Names ctx text d) (hctx : Understands p ctx ctx') (hd : p d) :
    Names ctx' text d :=
  { h with means := hctx.means text d hd h.means }

theorem Leads.transfer {lock : Bytes} (h : Leads ctx text d lock)
    (hctx : Understands p ctx ctx') (hd : p d) : Leads ctx' text d lock := by
  cases h with
  | named hfirst hobject hname hne hmeans =>
    exact .named hfirst hobject hname hne (hctx.means _ d hd hmeans)
  | unnamed hfirst hobject hname hne hmeans =>
    rw [← hctx.lockType] at hne ⊢
    exact .unnamed hfirst hobject hname hne (hctx.means _ d hd hmeans)
  | alone hclear hobject hne hmeans =>
    rw [← hctx.lockType] at hne ⊢
    exact .alone hclear hobject hne (hctx.means _ d hd hmeans)

theorem Spells.transfer (h : Spells ctx pos text key) (hctx : Understands p ctx ctx')
    (hkey : ∀ d ∈ Assembly.objects key, p d) : Spells ctx' pos text key := by
  cases h with
  | bool value hvalue => exact .bool value hvalue
  | const hnames => exact .const (hnames.transfer hctx (hkey _ (List.mem_singleton_self _)))
  | attr hdivided => exact .attr hdivided
  | eval hdivided => exact .eval hdivided
  | flagClass hdivided known => exact .flagClass hdivided (hctx.classes _ known)

theorem Leaf.transfer (h : Leaf ctx pos text key) (hctx : Understands p ctx ctx')
    (hkey : ∀ d ∈ Assembly.objects key, p d) : Leaf ctx' pos text key := by
  cases h with
  | key atom first spells => exact .key atom first (spells.transfer hctx hkey)
  | indirect blank atom first leads =>
    exact .indirect blank atom first (leads.transfer hctx (hkey _ (List.mem_singleton_self _)))
  | @object operator make _ _ d takes blank atom first names =>
    have hd : p d := by
      cases takes with
      | is | carry | owner => exact hkey d (List.mem_singleton_self d)
    exact .object takes blank atom first (names.transfer hctx hd)

/-- What is derived in one context is derived as the same key in another that understands it. -/
theorem Derives.transfer (h : Derives ctx level last pos s key) (hctx : Understands p ctx ctx')
    (hkey : ∀ d ∈ Assembly.objects key, p d) : Derives ctx' level last pos s key := by
  induction h with
  | leaf blank leaf trailing closed =>
    exact .leaf blank (leaf.transfer hctx hkey) trailing closed
  | group blank inner trailing ih => exact .group blank (ih hkey) trailing
  | not blank operand ih => exact .not blank (ih hkey)
  | oneAnd one ih => exact .oneAnd (ih hkey)
  | and first more ihl ihr =>
    obtain ⟨hleft, hright⟩ := List.forall_mem_append.1 hkey
    exact .and (ihl hleft) (ihr hright)
  | oneOr one ih => exact .oneOr (ih hkey)
  | or first more ihl ihr =>
    obtain ⟨hleft, hright⟩ := List.forall_mem_append.1 hkey
    exact .or (ihl hleft) (ihr hright)

/-- A text is read in one context as it is read in another that understands it. -/
theorem parse_transfer {key? : Option Key} (h : Key.parse ctx s = .ok key?)
    (hctx : Understands p ctx ctx')
    (hkey : ∀ key, key? = some key → ∀ d ∈ Assembly.objects key, p d) :
    Key.parse ctx' s = .ok key? := by
  cases key? with
  | none => exact parse_eq_none_iff.2 (parse_eq_none_iff.1 h)
  | some key => exact parse_eq_some_iff.2 ((parse_eq_some_iff.1 h).transfer hctx (hkey key rfl))

end Grammar

namespace Database
namespace Store

open Lock.Compiler

variable {s : Store} {d : Dbref} {text source lockType : Bytes}

/-- What a player types in is understood wherever the text that is loaded is, as far as its
objects are there. -/
theorem understands_load (s : Store) (player : Dbref) (lockType : Bytes) :
    Grammar.Understands (s.isValid · = true) (s.compiler.loadContext lockType)
      (s.typingContext player lockType) where
  lockType := rfl
  classes _ known := known
  means text d hvalid hmeans := by
    cases hmeans with
    | number mode parsed fits =>
      have hne {d' : Dbref} (hd' : d'.isSentinel = true) : d ≠ d' := by
        rintro rfl
        rw [isValid, hd'] at hvalid
        cases hvalid
      refine .name s.matchObject ⟨rfl, rfl⟩ ?_ ⟨hne rfl, hne rfl, hne rfl⟩ fits
      exact matchObject_of_parse parsed hvalid player
    | name find mode => cases mode.1

/-- A text that was compiled while the database was loaded has the same code when a player types
it in, whoever that is, provided that all objects in it are there. -/
theorem compile_of_compileLoad {code : LockCode}
    (hload : s.compiler.compileLoad source lockType = .ok code)
    (hvalid : ∀ key, Key.parse (s.compiler.loadContext lockType) source = .ok (some key) →
      ∀ d ∈ Assembly.objects key, s.isValid d = true) (player : Dbref) :
    s.compiler.compile source player lockType = .ok code := by
  obtain ⟨key?, hparse, hcode⟩ := compileLoad_eq_ok hload
  have htyped : Key.parse (s.typingContext player lockType) source = .ok key? := by
    apply Grammar.parse_transfer hparse (s.understands_load player lockType)
    rintro key rfl
    exact hvalid key hparse
  change Lock.compileWith (s.typingContext player lockType) source = .ok code
  rw [Lock.compileWith, htyped]
  simp only [hcode]

/-- `= #+1|@\#02/Use`, with a no-break space after the equals sign. -/
def variedText : Bytes := [61, 194, 160, 35, 43, 49, 124, 64, 92, 35, 48, 50, 47, 85, 115, 101]

theorem parse_variedText : Key.parse (holder.compiler.loadContext []) variedText =
    .ok (some (.or 6 (.is 0 1) (.indirect 7 2 [85, 115, 101]))) := by
  have hlast : Parser.readOr (holder.compiler.loadContext []) ⟨7, variedText.drop 7, []⟩ =
      .ok (.indirect 7 2 [85, 115, 101], ⟨16, [], []⟩) := by
    rw [Parser.readOr, Parser.outcome_parseOr, Parser.outcome_parseAnd, Parser.outcome_parseNot]
    rfl
  have hall : Parser.readOr (holder.compiler.loadContext []) ⟨0, variedText, []⟩ =
      .ok (.or 6 (.is 0 1) (.indirect 7 2 [85, 115, 101]), ⟨16, [], []⟩) := by
    rw [Parser.readOr, Parser.outcome_parseOr, Parser.outcome_parseAnd, Parser.outcome_parseNot]
    change (Parser.readOr (holder.compiler.loadContext []) ⟨7, variedText.drop 7, []⟩).map _ = _
    rw [hlast]
    rfl
  exact Parser.parse_of_outcome rfl hall rfl

theorem compile_of_compileLoad_varied :
    ∃ code, holder.compiler.compileLoad variedText [] = .ok (some code) ∧
      (∀ key, Key.parse (holder.compiler.loadContext []) variedText = .ok (some key) →
        ∀ d ∈ Assembly.objects key, holder.isValid d = true) ∧
      holder.compiler.compile variedText 2 [] = .ok (some code) := by
  obtain ⟨a, ha⟩ :
      ∃ a, Assembly.ofKey (some (.or 6 (.is 0 1) (.indirect 7 2 [85, 115, 101]))) =
        .ok a := ⟨_, rfl⟩
  have hload := Lock.Compiler.compileLoad_eq _ parse_variedText ha
  have hvalid : ∀ key, Key.parse (holder.compiler.loadContext []) variedText = .ok (some key) →
      ∀ d ∈ Assembly.objects key, holder.isValid d = true := by
    intro key hkey
    rw [parse_variedText] at hkey
    cases hkey
    decide
  exact ⟨_, hload, hvalid, compile_of_compileLoad hload hvalid 2⟩

end Store
end Database
end Locksmith
