import Locksmith.Lock.Escape
import Locksmith.Lock.Key
import Locksmith.Text.Case

namespace Locksmith

/-- What the text of a lock is read against. -/
structure ParseContext where
  /-- Finds the object that a name means to a player. Without one only `#N` is understood. -/
  matcher : Option (Dbref → Bytes → Dbref)
  /-- The known flag classes. -/
  classes : Option (Bytes → Bool)
  /-- The player whose lock is read. -/
  subject : Dbref
  /-- The lock that `@object` means when it names none. -/
  lockType : Bytes
  /-- Whether a database is being loaded, so that objects are always `#N`. -/
  loading : Bool

inductive ParseError.Cause where
  | unexpected (b : UInt8)
  | expectedObject (operator : UInt8)
  | needsLockName (object : Bytes)
  | missingClose
  | emptyKey
  | badAttribute (name : Bytes)
  | unknownClass (name : Bytes)
  | badDbref (name : Bytes)
  | ambiguous (name : Bytes)
  | notHere (name : Bytes)
deriving DecidableEq, Repr

/-- A mistake and the offset of the byte where it was found. -/
structure ParseError where
  offset : Nat
  cause : ParseError.Cause
deriving DecidableEq, Repr

def ParseError.message (e : ParseError) : Bytes :=
  match e.cause with
  | .unexpected b => "Unexpected " ++ Quoted.char (Char.ofNat b.toNat) ++ " in lock."
  | .expectedObject op => "Expected an object after '" ++ [op] ++ "'."
  | .needsLockName object => "Indirect lock on " ++ object ++ " needs a lock name."
  | .missingClose => "Missing ')'."
  | .emptyKey => "Empty lock key."
  | .badAttribute name => "Bad attribute name " ++ Quoted.text name ++ " in lock."
  | .unknownClass name => "Unknown flag class " ++ Quoted.text name ++ "."
  | .badDbref name => "Bad dbref " ++ Quoted.text name ++ " in lock."
  | .ambiguous name => "I don't know which " ++ name ++ " you mean!"
  | .notHere name => "I don't see " ++ name ++ " here."

namespace Parser

/-- A place in the text: its offset, what follows it, and the names asked of the matcher before
it, latest first. -/
structure Cursor where
  pos : Nat
  rest : Bytes
  asked : List Bytes

/-- A mistake together with the names asked before it. -/
structure Failure where
  error : ParseError
  asked : List Bytes

def Cursor.fail {α : Type} (c : Cursor) (cause : ParseError.Cause) : Except Failure α :=
  .error ⟨⟨c.pos, cause⟩, c.asked⟩

/-- The next place that is not white space. -/
def Cursor.skipSpace (c : Cursor) : Cursor :=
  ⟨c.pos + (c.rest.takeWhile Escape.isSpace).length, c.rest.dropWhile Escape.isSpace, c.asked⟩

theorem Cursor.skipSpace_length (c : Cursor) : c.skipSpace.rest.length ≤ c.rest.length :=
  (List.dropWhile_sublist _).length_le

/-- The trimmed text up to the first unescaped `&`, `|` or `)`, and the place of that byte. -/
def Cursor.scanKey (c : Cursor) : Bytes × Cursor :=
  let (text, rest) := Escape.span Escape.endsKey c.rest
  (Escape.trim text, ⟨c.pos + text.length, rest, c.asked⟩)

theorem span_append (p : UInt8 → Bool) (s : Bytes) :
    (Escape.span p s).1 ++ (Escape.span p s).2 = s := by
  fun_induction Escape.span p s <;> simp_all

theorem Cursor.scanKey_length {c : Cursor} (h : c.scanKey.1 ≠ []) :
    c.scanKey.2.rest.length < c.rest.length := by
  have happ := congrArg List.length (span_append Escape.endsKey c.rest)
  have hne : (Escape.span Escape.endsKey c.rest).1 ≠ [] := by
    intro he
    apply h
    simp [scanKey, he, Escape.trim, Escape.dropSpaces]
  have := List.length_pos_iff.2 hne
  simp only [List.length_append] at happ
  simp only [scanKey]
  omega

/-- A key read at a place, with the place after it. Reading a key always takes some text. -/
structure Parsed (c : Cursor) where
  key : Key
  next : Cursor
  shorter : next.rest.length < c.rest.length

def isConstant (text : Bytes) : Bool := text.equalsFold "#true" || text.equalsFold "#false"

/-- The object that a text means, and the names asked so far. -/
def resolve (ctx : ParseContext) (c : Cursor) (text : Bytes) :
    Except Failure (Dbref × List Bytes) :=
  let name := Escape.unescape text
  match if ctx.loading then none else ctx.matcher with
  | none =>
    match Dbref.parse name with
    | .ok id => if id.fitsOperand then .ok (id, c.asked) else c.fail (.badDbref name)
    | .error _ => c.fail (.badDbref name)
  | some find =>
    let c := { c with asked := name :: c.asked }
    let id := find ctx.subject name
    if id == Dbref.ambiguous then c.fail (.ambiguous name)
    else if id == Dbref.nothing || id == Dbref.failedMatch then c.fail (.notHere name)
    else if id.fitsOperand then .ok (id, c.asked)
    else c.fail (.badDbref name)

/-- The key that a text without operators stands for. -/
def readKey (ctx : ParseContext) (c : Cursor) (text : Bytes) :
    Except Failure (Key × List Bytes) :=
  if isConstant text then .ok (.bool c.pos (text.equalsFold "#true"), c.asked)
  else
    match Escape.cut Escape.dividesKey text with
    | none => (resolve ctx c text).map fun (id, asked) => (.const c.pos id, asked)
    | some (before, divider, after) =>
      let name := Escape.trim before
      let pattern := Escape.trim after
      if name.isEmpty || name.any (fun b => b == 32 || b == 9) then c.fail (.badAttribute name)
      else
        let name := name.toUpper
        if divider == 58 then .ok (.attr c.pos name pattern, c.asked)
        else if divider == 47 then .ok (.eval c.pos name pattern, c.asked)
        else if ctx.classes.any (· name) then .ok (.flagClass c.pos name pattern, c.asked)
        else c.fail (.unknownClass name)

/-- The object and lock that the text after `@` means. -/
def readIndirect (ctx : ParseContext) (c : Cursor) (text : Bytes) :
    Except Failure (Dbref × Bytes × List Bytes) :=
  let (object, lock) := match Escape.cut (· == 47) text with
    | some (before, _, after) => (Escape.trim before, Escape.unescape (Escape.trim after))
    | none => (Escape.trim text, [])
  -- Without a name it is the lock of the same type as the one that is read.
  let lock := if lock.isEmpty then ctx.lockType else lock
  if lock.isEmpty then c.fail (.needsLockName object)
  else (resolve ctx c object).map fun (id, asked) => (id, lock, asked)

/-- The object that the text after `=`, `+` or `$` means. -/
def readObject (ctx : ParseContext) (c : Cursor) (operator : UInt8) (text : Bytes) :
    Except Failure (Dbref × List Bytes) :=
  if isConstant text || (Escape.cut Escape.dividesKey text).isSome then
    c.fail (.expectedObject operator)
  else resolve ctx c text

/-- Reads what follows an operator that takes an object: `operator` stands at `c`, and `read`
makes the key of its operand's text. -/
def parseOperand (c : Cursor) (operator : UInt8) (after : Bytes)
    (h : after.length < c.rest.length)
    (read : Cursor → Bytes → Except Failure (Key × List Bytes)) : Except Failure (Parsed c) :=
  let start := Cursor.skipSpace ⟨c.pos + 1, after, c.asked⟩
  if start.rest.head? == some 40 then start.fail (.expectedObject operator)
  else if hs : start.scanKey.1 = [] then start.fail (.expectedObject operator)
  else
    match read start start.scanKey.1 with
    | .error e => .error e
    | .ok (key, asked) =>
      .ok ⟨key, { start.scanKey.2 with asked }, by
        have h1 := Cursor.scanKey_length hs
        have h2 : start.rest.length ≤ after.length := Cursor.skipSpace_length _
        exact Nat.lt_of_lt_of_le h1 (Nat.le_of_lt (Nat.lt_of_le_of_lt h2 h))⟩

def parseKey (ctx : ParseContext) (c : Cursor) : Except Failure (Parsed c) :=
  if hs : c.scanKey.1 = [] then c.fail .emptyKey
  else
    match readKey ctx c c.scanKey.1 with
    | .error e => .error e
    | .ok (key, asked) => .ok ⟨key, { c.scanKey.2 with asked }, Cursor.scanKey_length hs⟩

mutual

/-- Reads keys joined by `|`. -/
def parseOr (ctx : ParseContext) (c : Cursor) : Except Failure (Parsed c) :=
  match parseAnd ctx c with
  | .error e => .error e
  | .ok left =>
    have hl := left.shorter
    have hs := left.next.skipSpace_length
    match h : left.next.skipSpace.rest with
    | 124 :: after =>
      have ha : after.length + 1 = left.next.skipSpace.rest.length := by simp [h]
      match parseOr ctx ⟨left.next.skipSpace.pos + 1, after, left.next.asked⟩ with
      | .error e => .error e
      | .ok right =>
        .ok ⟨.or left.next.skipSpace.pos left.key right.key, right.next, by
          have hr := right.shorter
          simp only at hr
          omega⟩
    | _ => .ok ⟨left.key, left.next.skipSpace, by omega⟩
termination_by (c.rest.length, 3)
decreasing_by
  all_goals
    simp only [Prod.lex_def, true_and]
    omega

/-- Reads keys joined by `&`. -/
def parseAnd (ctx : ParseContext) (c : Cursor) : Except Failure (Parsed c) :=
  match parseNot ctx c with
  | .error e => .error e
  | .ok left =>
    have hl := left.shorter
    have hs := left.next.skipSpace_length
    match h : left.next.skipSpace.rest with
    | 38 :: after =>
      have ha : after.length + 1 = left.next.skipSpace.rest.length := by simp [h]
      match parseAnd ctx ⟨left.next.skipSpace.pos + 1, after, left.next.asked⟩ with
      | .error e => .error e
      | .ok right =>
        .ok ⟨.and left.next.skipSpace.pos left.key right.key, right.next, by
          have hr := right.shorter
          simp only at hr
          omega⟩
    | _ => .ok ⟨left.key, left.next.skipSpace, by omega⟩
termination_by (c.rest.length, 2)
decreasing_by
  all_goals
    simp only [Prod.lex_def, true_and]
    omega

/-- Reads one operand of `&` and `|`. -/
def parseNot (ctx : ParseContext) (c : Cursor) : Except Failure (Parsed c) :=
  have hs := c.skipSpace_length
  match h : c.skipSpace.rest with
  | 33 :: after =>
    have ha : after.length + 1 = c.skipSpace.rest.length := by simp [h]
    match parseNot ctx ⟨c.skipSpace.pos + 1, after, c.asked⟩ with
    | .error e => .error e
    | .ok operand =>
      .ok ⟨.not c.skipSpace.pos operand.key, operand.next, by
        have hr := operand.shorter
        simp only at hr
        omega⟩
  | 64 :: after =>
    (parseOperand c.skipSpace 64 after (by simp [h]) fun start text =>
      (readIndirect ctx start text).map fun (id, lock, asked) =>
        (.indirect c.skipSpace.pos id lock, asked)).map
      fun r => ⟨r.key, r.next, by have := r.shorter; omega⟩
  | 61 :: after =>
    (parseOperand c.skipSpace 61 after (by simp [h]) fun start text =>
      (readObject ctx start 61 text).map fun (id, asked) => (.is c.skipSpace.pos id, asked)).map
      fun r => ⟨r.key, r.next, by have := r.shorter; omega⟩
  | 43 :: after =>
    (parseOperand c.skipSpace 43 after (by simp [h]) fun start text =>
      (readObject ctx start 43 text).map fun (id, asked) =>
        (.carry c.skipSpace.pos id, asked)).map
      fun r => ⟨r.key, r.next, by have := r.shorter; omega⟩
  | 36 :: after =>
    (parseOperand c.skipSpace 36 after (by simp [h]) fun start text =>
      (readObject ctx start 36 text).map fun (id, asked) =>
        (.owner c.skipSpace.pos id, asked)).map
      fun r => ⟨r.key, r.next, by have := r.shorter; omega⟩
  | 40 :: after =>
    have ha : after.length + 1 = c.skipSpace.rest.length := by simp [h]
    match parseOr ctx ⟨c.skipSpace.pos + 1, after, c.asked⟩ with
    | .error e => .error e
    | .ok inner =>
      have hi := inner.shorter
      have hn := inner.next.skipSpace_length
      match h' : inner.next.skipSpace.rest with
      | 41 :: after' =>
        .ok ⟨inner.key, ⟨inner.next.skipSpace.pos + 1, after', inner.next.asked⟩, by
          have ha' : after'.length + 1 = inner.next.skipSpace.rest.length := by simp [h']
          simp only at hi ⊢
          omega⟩
      | _ => inner.next.skipSpace.fail .missingClose
  | _ =>
    (parseKey ctx c.skipSpace).map fun r => ⟨r.key, r.next, by have := r.shorter; omega⟩
termination_by (c.rest.length, 1)
decreasing_by
  all_goals
    simp only [Prod.lex_def]
    omega

end

/-- Reads a whole text from its start. A blank text is no key. -/
def parseAll (ctx : ParseContext) (s : Bytes) : Except Failure (Option Key × List Bytes) :=
  let start := Cursor.skipSpace ⟨0, s, []⟩
  if start.rest.isEmpty then .ok (none, [])
  else
    match parseOr ctx start with
    | .error e => .error e
    | .ok r =>
      let last := r.next.skipSpace
      match last.rest with
      | [] => .ok (some r.key, last.asked)
      | b :: _ => last.fail (.unexpected b)

end Parser

namespace Key

/-- The lock that a text describes; a blank text describes none. From loosest to tightest:

```text
E ::= T | T '|' E
T ::= F | F '&' T
F ::= '!' F | '@' object | '@' object '/' lock | '=' object | '+' object | '$' object
    | '(' E ')' | key
```

White space may stand around every part. A key runs up to the first unescaped `&`, `|` or `)`;
its first unescaped `:`, `/` or `^` divides it into a name and a pattern, and without one it is
an object. -/
def parse (ctx : ParseContext) (s : Bytes) : Except ParseError (Option Key) :=
  match Parser.parseAll ctx s with
  | .ok (key, _) => .ok key
  | .error e => .error e.error

/-- The names that reading a text asks of the matcher, in order. -/
def asked (ctx : ParseContext) (s : Bytes) : List Bytes :=
  match Parser.parseAll ctx s with
  | .ok (_, asked) => asked.reverse
  | .error e => e.asked.reverse

end Key
end Locksmith
