import Locksmith.Machine.Bytecode

namespace Locksmith

inductive DisplayMode where
  /-- By name and number. -/
  | names
  /-- By number. -/
  | dbrefs
  /-- By number, and the viewer as `me`. -/
  | dbrefsOrMe
deriving DecidableEq, Repr

/-- The text of code that cannot be read. -/
def corruptText : Bytes := "*CORRUPT LOCK*"

namespace Decompile

/-- How the objects of a lock are shown to a viewer. Without names they are shown by number. -/
structure Style where
  viewer : Dbref
  mode : DisplayMode
  names : Option (Dbref → Bytes)

def Style.object (style : Style) (d : Dbref) : Bytes :=
  match style.mode, style.names with
  | .dbrefsOrMe, _ => if d == style.viewer then "me" else d.render
  | .names, some name => name d ++ "(" ++ d.render ++ ")"
  | _, _ => d.render

/-- Splits instructions after an open group mark at the mark that closes it; `depth` counts the
groups opened since. -/
def splitGroup (depth : Nat) : List Insn → Option (List Insn × List Insn)
  | [] => none
  | i :: rest =>
    if i.op == .paren && i.arg != 0 then
      match depth with
      | 0 => some ([], rest)
      | d + 1 => (splitGroup d rest).map fun (inner, after) => (i :: inner, after)
    else
      (splitGroup (if i.op == .paren then depth + 1 else depth) rest).map fun (inner, after) =>
        (i :: inner, after)

theorem splitGroup_length {depth : Nat} {l inner after : List Insn}
    (h : splitGroup depth l = some (inner, after)) :
    inner.length + after.length < l.length := by
  induction l generalizing depth inner after with
  | nil => simp [splitGroup] at h
  | cons i rest ih =>
    unfold splitGroup at h
    split at h
    · split at h
      · simp at h
        obtain ⟨rfl, rfl⟩ := h
        simp
      · obtain ⟨⟨x, y⟩, hx, he⟩ := Option.map_eq_some_iff.1 h
        have := ih hx
        simp only [Prod.mk.injEq] at he
        obtain ⟨rfl, rfl⟩ := he
        simp only [List.length_cons]
        omega
    · obtain ⟨⟨x, y⟩, hx, he⟩ := Option.map_eq_some_iff.1 h
      have := ih hx
      simp only [Prod.mk.injEq] at he
      obtain ⟨rfl, rfl⟩ := he
      simp only [List.length_cons]
      omega

def negates (i : Insn) : Bool := i.op == .negate

/-- An exclamation mark for each negation that follows. -/
def marks (after : List Insn) : Bytes := List.replicate (after.takeWhile negates).length 33

/-- The text of a test, given the text register. -/
def renderTest (style : Style) (code text : Bytes) (i : Insn) : Option Bytes :=
  let object := style.object ⟨i.arg.toInt64⟩
  match i.op with
  | .testConst => some object
  | .testIs => some ("=" ++ object)
  | .testCarry => some ("+" ++ object)
  | .testOwner => some ("$" ++ object)
  | .testIndirect => some ("@" ++ object ++ "/" ++ text)
  | .loadResult => some (if i.arg != 0 then "#TRUE" else "#FALSE")
  | .testAttr => (Bytecode.textAt code i.arg).toOption.map fun pattern => text ++ ":" ++ pattern
  | .testEval => (Bytecode.textAt code i.arg).toOption.map fun pattern => text ++ "/" ++ pattern
  | .testClass =>
    (Bytecode.textAt code i.arg).toOption.map fun pattern => text ++ "^" ++ pattern
  | _ => none

/-- The text of some instructions and the text register after them. -/
def render (style : Style) (code text : Bytes) (insns : List Insn) : Option (Bytes × Bytes) :=
  match insns with
  | [] => some ([], text)
  | i :: rest =>
    match i.op with
    | .ret => some ([], text)
    | .jumpFalse => (render style code text rest).map fun (out, text) => (38 :: out, text)
    | .jumpTrue => (render style code text rest).map fun (out, text) => (124 :: out, text)
    | .negate => render style code text rest
    | .loadText =>
      match Bytecode.textAt code i.arg with
      | .error _ => none
      | .ok text => render style code text rest
    | .paren =>
      if i.arg != 0 then none
      else
        match h : splitGroup 0 rest with
        | none => none
        | some (inner, after) =>
          have := splitGroup_length h
          have := (List.dropWhile_sublist (l := after) negates).length_le
          match render style code text inner with
          | none => none
          | some (group, text) =>
            (render style code text (after.dropWhile negates)).map fun (out, text) =>
              (marks after ++ "(" ++ group ++ ")" ++ out, text)
    | _ =>
      match renderTest style code text i with
      | none => none
      | some test =>
        have := (List.dropWhile_sublist (l := rest) negates).length_le
        (render style code text (rest.dropWhile negates)).map fun (out, text) =>
          (marks rest ++ test ++ out, text)
termination_by insns.length
decreasing_by
  all_goals
    simp only [List.length_cons] at *
    omega

end Decompile

namespace LockCode

/-- The text of a lock as a viewer sees it. Jumps become `&` and `|`, group marks become
parentheses, and a negation is written in front of the test or group that it follows. -/
def decompile (code : LockCode) (viewer : Dbref) (mode : DisplayMode)
    (names : Option (Dbref → Bytes)) : Bytes :=
  match code with
  | none => openText
  | some bytes =>
    match Bytecode.instructions bytes with
    | .error _ => corruptText
    | .ok insns =>
      match Decompile.render ⟨viewer, mode, names⟩ bytes [] insns with
      | none => corruptText
      | some (out, _) => out

end LockCode
end Locksmith
