import Locksmith.Cbor.Decode

namespace Locksmith
namespace Cbor

/-- The tag that says no more than "this is an item". -/
def selfDescribed : UInt64 := 55799

def Item.isKey : Item → Bool
  | .array _ | .map _ => false
  | _ => true

/-- Puts an entry into a map, in place of one with the same key. -/
def putEntry (l : List (Item × Item)) (k v : Item) : List (Item × Item) :=
  l.filter (fun e => e.1.encode != k.encode) ++ [(k, v)]

mutual

/-- What an item means to a reader who expects anything at all: text is UTF-8, a later entry of
a map replaces an earlier one with the same key, and keys are neither arrays nor maps. -/
def Item.value : Item → Except Error Item
  | .text s => if Utf8.isValid s then .ok (.text s) else .error .notUtf8
  | .array l => (valueAll l).map .array
  | .map l => (valueEntries [] l).map .map
  | .tag n i => if n = selfDescribed then i.value else i.value.map (.tag n)
  | .simple n => .ok (if n = 23 then .null else .simple n)
  | i => .ok i

def valueAll : List Item → Except Error (List Item)
  | [] => .ok []
  | i :: r => do return (← i.value) :: (← valueAll r)

/-- Puts the meanings of some entries into a map. -/
def valueEntries (acc : List (Item × Item)) :
    List (Item × Item) → Except Error (List (Item × Item))
  | [] => .ok acc
  | (k, v) :: r => do
    let k ← k.value
    if !k.isKey then throw .badKey
    valueEntries (putEntry acc k (← v.value)) r

end

end Cbor
end Locksmith
