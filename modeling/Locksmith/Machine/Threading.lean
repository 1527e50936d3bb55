import Locksmith.Machine.Assembly

namespace Locksmith
namespace Assembly

def jumpCount (a : Assembly) : Nat := a.code.countP (·.op.isJump)

/-- The place of the first effective instruction after the first placement of a label. -/
def landing? (a : Assembly) (l : Int32) : Option Nat := do
  let place ← a.code.findIdx? (·.places l)
  let offset ← (a.code.drop (place + 1)).findIdx? (·.isEffective)
  return place + 1 + offset

/-- Sends the jump at place `i` to label `l`. -/
def retarget (a : Assembly) (i : Nat) (l : Int32) : Assembly :=
  { a with code := a.code.modify i fun j => { j with arg := l } }

/-- Places a new label after place `i`. -/
def labelAfter (a : Assembly) (i : Nat) : Assembly :=
  { a with
    code := a.code.take (i + 1) ++ ⟨.label, Int32.ofNat a.labels⟩ :: a.code.drop (i + 1)
    labels := a.labels + 1 }

/-- Sends the jump at place `i` past up to `steps` jumps that it leads to. -/
def follow (i : Nat) : (steps : Nat) → Assembly → Assembly
  | 0, a => a
  | steps + 1, a =>
    match a.code[i]? with
    | none => a
    | some jump =>
      match a.landing? jump.arg with
      | none => a
      | some next =>
        match a.code[next]? with
        | none => a
        | some hit =>
          if !hit.op.isJump then a
          -- A jump of the same kind is taken as well. One of the other kind never is, so that
          -- what follows it is next.
          else if hit.op == jump.op then follow i steps (a.retarget i hit.arg)
          else follow i steps ((a.labelAfter next).retarget i (Int32.ofNat a.labels))

/-- The place of the jump before which there are `k` others. -/
def jumpPlace? (a : Assembly) (k : Nat) : Option Nat :=
  (a.code.zipIdx.filter (·.1.op.isJump))[k]?.map (·.2)

/-- Threads the jump before which there are `k` others. No jump leads past more jumps than there
are. -/
def threadJump (a : Assembly) (k : Nat) : Assembly :=
  match a.jumpPlace? k with
  | none => a
  | some i => follow i (a.jumpCount + 1) a

/-- Threads every jump, from first to last. Where a jump leads to another one with the same
condition, it goes where that one leads; with the opposite condition, right past it to a new
label. -/
def threadJumps (a : Assembly) : Assembly := (List.range a.jumpCount).foldl threadJump a

end Assembly
end Locksmith
