import Locksmith.Log.Record
import Locksmith.Text.Case
import Locksmith.Text.Printable

namespace Locksmith
namespace Log

inductive Level.Error where
  | unknownName (s : Bytes)
  | badOffset (s offset : Bytes) (e : Decimal.Error)
deriving DecidableEq, Repr

def Level.Error.message : Level.Error → Bytes
  | unknownName s => "slog: level string " ++ Quoted.text s ++ ": unknown name"
  | badOffset s offset e =>
    "slog: level string " ++ Quoted.text s ++ ": " ++ Decimal.report "Atoi" offset e

/-- The level with a name, without regard to case. -/
def Level.named? (s : Bytes) : Option Level :=
  let upper := s.toUpper
  if upper = "DEBUG" then some debug
  else if upper = "INFO" then some info
  else if upper = "WARN" then some warn
  else if upper = "ERROR" then some error
  else none

/-- A level as it is written: a name, and the distance to it if there is any. -/
def Level.parse (s : Bytes) : Except Level.Error Level :=
  let isSign (b : UInt8) : Bool := b = 43 || b = 45
  let name := s.takeWhile (!isSign ·)
  let offset := s.drop name.length
  let distance := if offset.isEmpty then .ok 0 else Decimal.readInt64 offset
  match distance, named? name with
  | .error e, _ => .error (.badOffset s offset e)
  | .ok _, none => .error (.unknownName s)
  | .ok d, some l => .ok ⟨(Int64.ofInt l.value + d).toInt⟩

/-- Whether a character cannot stand in a value without quotes. -/
def needsQuotes : Symbol → Bool
  | .stray _ => true
  | .char c =>
    let n := c.toNat
    if n < 128 then n ≤ 32 || c = '=' || c = '"'
    else c = '\ufffd' || isBlank c || !isPrintable c

def word (s : Bytes) : Bytes :=
  if s.isEmpty || (Utf8.decode s).any needsQuotes then Quoted.text s else s

def objectSymbol : Symbol → Bytes
  | .stray _ => "\\ufffd"
  | .char c =>
    let n := c.toNat
    if c = '"' then "\\\""
    else if c = '\\' then "\\\\"
    else if c = '\n' then "\\n"
    else if c = '\r' then "\\r"
    else if c = '\t' then "\\t"
    else if n < 32 then "\\u" ++ Quoted.hexDigits 4 n
    else if n = 0x2028 then "\\u2028"
    else if n = 0x2029 then "\\u2029"
    else Bytes.ofString c.toString

def objectText (s : Bytes) : Bytes := "\"" ++ (Utf8.decode s).flatMap objectSymbol ++ "\""

/-- A value in an object; objects and chunks are numbers. -/
def objectValue : Value → Bytes
  | .text s => objectText s
  | .number n => Decimal.ofInt n
  | .object d => Decimal.ofInt d.num.toInt
  | .chunk r => Decimal.ofNat r.num.toNat

def fieldWord (f : Bytes × Value) : Bytes := " " ++ word f.1 ++ "=" ++ word f.2.render

def objectField (f : Bytes × Value) : Bytes := "," ++ objectText f.1 ++ ":" ++ objectValue f.2

def Record.words (r : Record) : Bytes :=
  "level=" ++ word r.level.render ++ " msg=" ++ word r.message ++
    (r.fields.map fieldWord).flatten ++ "\n"

def Record.object (r : Record) : Bytes :=
  "\x7b\"level\":" ++ objectText r.level.render ++ ",\"msg\":" ++ objectText r.message ++
    (r.fields.map objectField).flatten ++ "\x7d\n"

structure Format where
  /-- The lowest level that is written. -/
  level : Level
  /-- Whether lines are objects. -/
  objects : Bool
deriving DecidableEq, Repr

/-- The line of a record, if it is written. -/
def Format.line (f : Format) (r : Record) : Bytes :=
  if r.level.value < f.level.value then [] else if f.objects then r.object else r.words

end Log
end Locksmith
