import Locksmith.Yaml.Scalar

namespace Locksmith
namespace Yaml

def dash : Char := '-'

def readScalar (flow : Bool) (indent : Nat) (c : Cursor) : Except Error (Scanned Node) := do
  let fuel := c.rest.length + 1
  match c.rest with
  | '\'' :: _ =>
    let s ← readSingle fuel (c.drop 1) []
    return ⟨.scalar false s.value, s.after⟩
  | '"' :: _ =>
    let s ← readDouble fuel (c.drop 1) []
    return ⟨.scalar false s.value, s.after⟩
  | rest =>
    if startsPlain flow rest then
      let s ← readPlain flow indent fuel c []
      return ⟨.scalar true s.value, s.after⟩
    else throw .unexpected

mutual

/-- A scalar or a collection in brackets. -/
def readFlow :
    (fuel : Nat) → (inside : Bool) → (indent : Nat) → Cursor → Except Error (Scanned Node)
  | 0, _, _, _ => .error .unfinished
  | fuel + 1, inside, indent, c =>
    match c.rest with
    | '[' :: _ => readFlowSequence fuel (c.drop 1) []
    | '{' :: _ => readFlowMapping fuel (c.drop 1) []
    | _ => readScalar inside indent c

/-- The items of a sequence in brackets; those already read are given in reverse. -/
def readFlowSequence : (fuel : Nat) → Cursor → List Node → Except Error (Scanned Node)
  | 0, _, _ => .error .unfinished
  | fuel + 1, c, acc => do
    let c := c.skip true true
    match c.rest with
    | ']' :: _ => return ⟨.sequence acc.reverse, c.drop 1⟩
    | _ =>
      let item ← readFlow fuel true 0 c
      let c' := item.after.skip true true
      let (node, c') ←
        match c'.rest with
        | ':' :: _ =>
          if c'.line ≠ c.line then throw .unexpected
          let v ← readFlowValue fuel (c'.drop 1)
          pure (.mapping [(item.value, v.value)], v.after.skip true true)
        | _ => pure (item.value, c')
      match c'.rest with
      | ',' :: _ => readFlowSequence fuel (c'.drop 1) (node :: acc)
      | ']' :: _ => return ⟨.sequence (node :: acc).reverse, c'.drop 1⟩
      | _ => throw .unexpected

/-- The entries of a mapping in brackets; those already read are given in reverse. -/
def readFlowMapping : (fuel : Nat) → Cursor → List (Node × Node) → Except Error (Scanned Node)
  | 0, _, _ => .error .unfinished
  | fuel + 1, c, acc => do
    let c := c.skip true true
    match c.rest with
    | '}' :: _ => return ⟨.mapping acc.reverse, c.drop 1⟩
    | _ =>
      let key ← readFlow fuel true 0 c
      let c' := key.after.skip true true
      let (value, c') ←
        match c'.rest with
        | ':' :: _ =>
          if c'.line ≠ c.line then throw .unexpected
          let v ← readFlowValue fuel (c'.drop 1)
          pure (v.value, v.after.skip true true)
        | _ => pure (.nothing, c')
      match c'.rest with
      | ',' :: _ => readFlowMapping fuel (c'.drop 1) ((key.value, value) :: acc)
      | '}' :: _ => return ⟨.mapping ((key.value, value) :: acc).reverse, c'.drop 1⟩
      | _ => throw .unexpected

/-- The value of an entry in brackets, which may be missing. -/
def readFlowValue : (fuel : Nat) → Cursor → Except Error (Scanned Node)
  | 0, _ => .error .unfinished
  | fuel + 1, c =>
    let c := c.skip true true
    match c.rest with
    | ',' :: _ | ']' :: _ | '}' :: _ => .ok ⟨.nothing, c⟩
    | _ => readFlow fuel true 0 c

end

mutual

/-- The node that starts here. Its lines stand at or behind the column `indent`; `keys` tells
whether it may be a sequence or mapping without brackets. -/
def readBlock :
    (fuel : Nat) → (indent : Nat) → (keys : Bool) → Cursor → Except Error (Scanned Node)
  | 0, _, _, _ => .error .unfinished
  | fuel + 1, indent, keys, c => do
    if c.atSign dash then
      if keys then readSequence fuel c.col false c [] else throw .unexpected
    else
      let node ← readFlow fuel false indent c
      let colon := node.after.skipSpaces
      if !colon.atSign ':' then return node
      if !keys || colon.line ≠ c.line then throw .unexpected
      readMapping fuel c.col node.value (colon.drop 1) []

/-- The entries of a mapping whose keys stand at column `col`, from behind the colon of one key
on. -/
def readMapping : (fuel : Nat) → (col : Nat) → (key : Node) → Cursor → List (Node × Node) →
    Except Error (Scanned Node)
  | 0, _, _, _, _ => .error .unfinished
  | fuel + 1, col, key, c, acc => do
    let n := c.skip false true
    let value : Scanned Node ←
      if n.atEnd then pure ⟨.nothing, n⟩
      else if n.line = c.line then readBlock fuel (col + 1) false n
      else if col < n.col then readBlock fuel (col + 1) true n
      else if n.col = col && n.atSign dash then readSequence fuel col true n []
      else pure ⟨.nothing, n⟩
    let acc := (key, value.value) :: acc
    let m := value.after.skip false true
    if m.atEnd || m.col < col then return ⟨.mapping acc.reverse, m⟩
    if m.col ≠ col || m.atSign dash then throw .unexpected
    let key ← readFlow fuel false (col + 1) m
    let colon := key.after.skipSpaces
    if !colon.atSign ':' || colon.line ≠ m.line then throw .unexpected
    readMapping fuel col key.value (colon.drop 1) acc

/-- The items of a sequence whose dashes stand at column `col`. One that stands as deep as the
key before it ends at the next key. -/
def readSequence : (fuel : Nat) → (col : Nat) → (underKey : Bool) → Cursor → List Node →
    Except Error (Scanned Node)
  | 0, _, _, _, _ => .error .unfinished
  | fuel + 1, col, underKey, c, acc => do
    let n := (c.drop 1).skip false false
    let item : Scanned Node ←
      if n.atEnd || (n.line ≠ c.line && n.col ≤ col) then pure ⟨.nothing, n⟩
      else readBlock fuel (col + 1) true n
    let acc := item.value :: acc
    let m := item.after.skip false true
    if m.atEnd || m.col < col then return ⟨.sequence acc.reverse, m⟩
    if m.col ≠ col then throw .unexpected
    if m.atSign dash then readSequence fuel col underKey m acc
    else if underKey then return ⟨.sequence acc.reverse, m⟩
    else throw .unexpected

end

/-- The tree of the first document of a text, if there is one. Anchors, tags, directives and
block scalars are not read. -/
def parse (s : Bytes) : Except Error (Option Node) := do
  let chars ← characters s
  let fuel := 4 * chars.length + 4
  let start := Cursor.skip false false ⟨chars, 0, 0⟩
  if start.rest.isEmpty then return none
  if start.atMarker then
    if start.startsWith ['.', '.', '.'] then throw .unexpected
    let c := (start.drop 3).skip false true
    if c.atEnd then return some .nothing
    let node ← readBlock fuel 0 (c.line ≠ start.line) c
    return some node.value
  else
    if start.col = 0 && start.startsWith ['%'] then throw .unsupported
    let node ← readBlock fuel 0 true start
    return some node.value

end Yaml
end Locksmith
