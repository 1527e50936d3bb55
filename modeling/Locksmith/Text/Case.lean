import Locksmith.Text.CaseTable
import Locksmith.Text.Utf8

namespace Locksmith

namespace Case

def upperChar (c : Char) : Char := Char.ofNat (CaseRun.apply CaseRun.upper c.toNat)

def lowerChar (c : Char) : Char := Char.ofNat (CaseRun.apply CaseRun.lower c.toNat)

/-- The representative of all characters that differ only in case. The two dotted and dotless
forms of `i` outside ASCII stand alone. -/
def foldChar (c : Char) : Char :=
  if c.toNat == 0x130 || c.toNat == 0x131 then c else lowerChar (upperChar c)

end Case

namespace Bytes

def toUpper (s : Bytes) : Bytes := Utf8.mapChars Case.upperChar s

def toLower (s : Bytes) : Bytes := Utf8.mapChars Case.lowerChar s

def equalsFold (s t : Bytes) : Bool :=
  (Utf8.decode s).map (fun x => Case.foldChar x.toChar) ==
    (Utf8.decode t).map (fun x => Case.foldChar x.toChar)

end Bytes
end Locksmith
