import Locksmith.Database.Store

namespace Locksmith
namespace Database

/-- What the code with a letter stands for. -/
def Store.code (s : Store) (self enactor : Dbref) (letter : UInt8) : Bytes :=
  if letter = Bytes.ofChar '#' then enactor.render
  else if letter = Bytes.ofChar '!' then self.render
  else if letter = Bytes.ofChar 'n' || letter = Bytes.ofChar 'N' then s.name enactor
  else if letter = Bytes.ofChar '%' then "%"
  else [Bytes.ofChar '%', letter]

/-- Replaces the codes in an attribute value: `%#` is the number of the enactor, `%n` its name,
`%!` the object that holds the text, and `%%` a percent sign. Other codes stay as they are. -/
def Store.substitute (s : Store) (self enactor : Dbref) : Bytes → Bytes
  | [] => []
  | [b] => [b]
  | b :: c :: r =>
    if b = Bytes.ofChar '%' then s.code self enactor c ++ s.substitute self enactor r
    else b :: s.substitute self enactor (c :: r)

/-- An attribute with its codes replaced. -/
def Store.evalAttribute (s : Store) (d : Dbref) (name : Bytes) (enactor : Dbref) :
    Except Error Bytes :=
  match s.attribute? d name with
  | none => .error (.noAttribute d name.toUpper)
  | some value => .ok (s.substitute d enactor value)

end Database
end Locksmith
