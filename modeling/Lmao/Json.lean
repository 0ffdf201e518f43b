-- Compact JSON texts, as serde_json writes them.
import Lmao.Bytes

namespace lmao.json

abbrev Text := List Char

def hex4 (n : Nat) : Text :=
  [hex_digit (n / 4096 % 16), hex_digit (n / 256 % 16), hex_digit (n / 16 % 16), hex_digit (n % 16)]

/-- The characters that JSON wants escaped. -/
def escape (c : Char) : Text :=
  if c = '"' then ['\\', '"']
  else if c = '\\' then ['\\', '\\']
  else if c.toNat = 8 then ['\\', 'b']
  else if c.toNat = 9 then ['\\', 't']
  else if c.toNat = 10 then ['\\', 'n']
  else if c.toNat = 12 then ['\\', 'f']
  else if c.toNat = 13 then ['\\', 'r']
  else if c.toNat < 32 then '\\' :: 'u' :: hex4 c.toNat
  else [c]

def null : Text := ['n', 'u', 'l', 'l']

def str (s : String) : Text := '"' :: s.toList.flatMap escape ++ ['"']

def bool (b : Bool) : Text := if b then ['t', 'r', 'u', 'e'] else ['f', 'a', 'l', 's', 'e']

def nat (n : Nat) : Text := Nat.toDigits 10 n

def option {α : Type} (f : α → Text) : Option α → Text
  | none => null
  | some a => f a

def comma_separated (items : List Text) : Text := (items.intersperse [',']).flatten

def array (items : List Text) : Text := '[' :: comma_separated items ++ [']']

def object (fields : List (String × Text)) : Text :=
  Char.ofNat 123 :: comma_separated (fields.map fun f => str f.1 ++ ':' :: f.2) ++ [Char.ofNat 125]

/-- A byte string is an array of numbers. -/
def bytes (bs : Bytes) : Text := array (bs.map fun b => nat b.toNat)

/-- The field is there only when it has a value. -/
def skip_none {α : Type} (name : String) (f : α → Text) : Option α → List (String × Text)
  | none => []
  | some a => [(name, f a)]

def to_vec (t : Text) : Bytes := t.flatMap String.utf8EncodeChar

end lmao.json
