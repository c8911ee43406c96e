import DynamicValues.Binary64
import DynamicValues.Word

/-!
Hashes of words, doubles, characters and sequences. No hash is `-1`: that number gives way to `-2`.
-/

set_option autoImplicit false

namespace DynamicValues.Hash

def remap (h : Int64) : Int64 := if h = -1 then -2 else h

def low (h : Int64) : Int64 := h &&& 0xffffffff

/-- One step of a hash over a sequence. -/
def mix (h item : Int64) : Int64 := low (h * 1000003) ^^^ item

def absent : Int64 := 0x9e3779b9

def int (n : Int64) : Int64 := remap n

/-- A double that is a word hashes like it, any other by its bits. The double nearest to the greatest
word is no word itself. -/
def float (x : Binary64) : Int64 :=
  if x.isWhole && (Binary64.ofInt Int64.minValue.toInt).le x && x.lt (.ofInt Int64.maxValue.toInt) then
    int (Word.saturate x.floor)
  else remap (low (x.bits ^^^ x.bits >>> 32).toInt64)

def char (c : Char) : Int64 := Int64.ofNat c.toNat

def text : List Char → Int64
  | [] => 0
  | c :: cs =>
    let h := (c :: cs).foldl (fun h c => mix h (char c)) (low (char c <<< 7))
    remap (h ^^^ Int64.ofNat (cs.length + 1))

/-- The hash of a sequence from those of its items. `len` is mixed in with each item. -/
def sequence (items : List Int64) (len : Nat) : Int64 :=
  remap (items.foldl (fun h item => mix h item ^^^ Int64.ofNat len) 0x345678)

end DynamicValues.Hash
