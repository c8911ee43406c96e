import DynamicValues.Host.Serializer

/-!
Values as JSON text without blanks. Objects keep the order of the bindings, and keys whose texts agree are all
written.
-/

set_option autoImplicit false

namespace DynamicValues

/-- Doubles are written positionally from `0.00001` up to below `1e16`; a tie goes to the even digit. -/
def Layout.json : Layout := ⟨-5, 15, true, .even⟩

namespace Json

def escape (c : Char) : List Char :=
  if c = '"' then ['\\', '"']
  else if c = '\\' then ['\\', '\\']
  else if c = '\n' then ['\\', 'n']
  else if c = '\r' then ['\\', 'r']
  else if c = '\t' then ['\\', 't']
  else if c = '\x08' then ['\\', 'b']
  else if c = '\x0c' then ['\\', 'f']
  else if c.toNat < 0x20 then
    ['\\', 'u', '0', '0', Nat.digitChar (c.toNat / 16), Nat.digitChar (c.toNat % 16)]
  else [c]

def quote (cs : List Char) : List Char := '"' :: (cs.flatMap escape ++ ['"'])

/-- An array or an object that is being written, and whether nothing is in it yet. -/
structure Compound where
  text : List Char
  first : Bool

/-- Writes one more part, behind a comma unless it is the first one. -/
def Compound.push (c : Compound) (part : List Char) : Compound :=
  ⟨c.text ++ (if c.first then part else ',' :: part), false⟩

/-- JSON texts, with doubles in some layout. -/
def serializer (layout : Layout) : Serializer (List Char) where
  unit := "null".toList
  bool b := (if b then "true" else "false").toList
  integer n := Layout.integer n.toInt
  float := layout.finite
  text t := quote t.chars
  Seq := Compound
  beginSeq _ := ⟨['['], true⟩
  element c item := c.push item
  endSeq c := c.text ++ [']']
  Map := Compound
  beginMap _ := ⟨['\x7b'], true⟩
  entry c name item := c.push (quote name.chars ++ ':' :: item)
  endMap c := c.text ++ ['\x7d']

def write (layout : Layout) (store : Store) (v : Value) : Except Error (List Char) :=
  v.serialize (serializer layout) store

end Json
end DynamicValues
