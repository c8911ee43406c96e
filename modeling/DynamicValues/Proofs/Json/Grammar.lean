import DynamicValues.Host.Basic
import DynamicValues.Proofs.Fields
import DynamicValues.Word
import Mathlib.Tactic.MkIffOfInductiveProp

/-!
JSON texts and the host data they denote. The grammar has two levels: characters spell tokens, with blanks
between them, and tokens are phrases. Of repeated names in an object the last one counts.
-/

set_option autoImplicit false

namespace DynamicValues
namespace Json

/-! Numbers. -/

structure Exponent where
  mark : Char
  sign : List Char
  digits : List Char

/-- The parts of a number; without a fraction there is no point. -/
structure Numeral where
  negative : Bool
  whole : List Char
  fraction : List Char
  exponent : Option Exponent

namespace Exponent

def text (e : Exponent) : List Char := e.mark :: (e.sign ++ e.digits)

@[mk_iff]
structure Valid (e : Exponent) : Prop where
  mark : e.mark = 'e' ∨ e.mark = 'E'
  sign : e.sign = [] ∨ e.sign = ['+'] ∨ e.sign = ['-']
  nonempty : e.digits ≠ []
  digits : ∀ c ∈ e.digits, c.isDigit = true

instance (e : Exponent) : Decidable e.Valid :=
  decidable_of_iff ((e.mark = 'e' ∨ e.mark = 'E') ∧ (e.sign = [] ∨ e.sign = ['+'] ∨ e.sign = ['-']) ∧
    e.digits ≠ [] ∧ e.digits.all Char.isDigit = true) (by rw [valid_iff, List.all_eq_true])

def value (e : Exponent) : Int :=
  if e.sign = ['-'] then -(Nat.ofDigitChars 10 e.digits 0 : Int) else Nat.ofDigitChars 10 e.digits 0

end Exponent

namespace Numeral

def text (n : Numeral) : List Char :=
  (if n.negative then ['-'] else []) ++ n.whole ++ (if n.fraction = [] then [] else '.' :: n.fraction) ++
    n.exponent.elim [] Exponent.text

@[mk_iff]
structure Valid (n : Numeral) : Prop where
  nonempty : n.whole ≠ []
  whole : ∀ c ∈ n.whole, c.isDigit = true
  /-- Only zero itself begins with a zero. -/
  leading : n.whole.head? = some '0' → n.whole = ['0']
  fraction : ∀ c ∈ n.fraction, c.isDigit = true
  exponent : ∀ e ∈ n.exponent, e.Valid

instance (n : Numeral) : Decidable n.Valid :=
  decidable_of_iff (n.whole ≠ [] ∧ n.whole.all Char.isDigit = true ∧
    (n.whole.head? = some '0' → n.whole = ['0']) ∧ n.fraction.all Char.isDigit = true ∧
    n.exponent.all (fun e => decide e.Valid) = true) (by
      simp only [valid_iff, List.all_eq_true, Option.all_eq_true, decide_eq_true_eq]
      rfl)

def coefficient (n : Numeral) : Nat := Nat.ofDigitChars 10 (n.whole ++ n.fraction) 0

def scale (n : Numeral) : Int := n.exponent.elim 0 Exponent.value - n.fraction.length

def double (n : Numeral) : Binary64 := .ofDecimal n.negative n.coefficient n.scale

def integer (n : Numeral) : Int := if n.negative then -n.coefficient else n.coefficient

/-- Whether a number is read as an integer: it has neither fraction nor exponent, it is no negative zero,
and it has 64 bits, with a sign or without. -/
def isInteger (n : Numeral) : Bool :=
  n.fraction = [] ∧ n.exponent = none ∧ ¬(n.negative ∧ n.coefficient = 0) ∧
    -Word.limit ≤ n.integer ∧ n.integer < 2 * Word.limit

/-- What a number stands for; a double that would be infinite is refused. -/
def host? (n : Numeral) : Option Host :=
  if n.isInteger then some (.integer n.integer)
  else if n.double.isFinite then some (.float n.double) else none

end Numeral

/-- Names of values, and numbers. -/
inductive Scalar : List Char → Host → Prop where
  | null : Scalar "null".toList .null
  | bool (b : Bool) : Scalar (if b then "true" else "false").toList (.bool b)
  | number {n : Numeral} {h : Host} : n.Valid → n.host? = some h → Scalar n.text h

/-! Strings. -/

/-- The characters with an escape of their own. -/
def short? : Char → Option Char
  | '"' => some '"'
  | '\\' => some '\\'
  | '/' => some '/'
  | 'b' => some '\x08'
  | 'f' => some '\x0c'
  | 'n' => some '\n'
  | 'r' => some '\r'
  | 't' => some '\t'
  | _ => none

def hex? (c : Char) : Option Nat :=
  if c.isDigit then some (c.toNat - '0'.toNat)
  else if 'a' ≤ c ∧ c ≤ 'f' then some (c.toNat - 'a'.toNat + 10)
  else if 'A' ≤ c ∧ c ≤ 'F' then some (c.toNat - 'A'.toNat + 10)
  else none

/-- A unit of 16 bits from its four digits. -/
def unit? (digits : List Char) : Option Nat :=
  if digits.length = 4 then digits.foldlM (fun n c => (hex? c).map (16 * n + ·)) 0 else none

/-- Units that stand for one character together. -/
def Paired (high low : Nat) : Prop := 0xd800 ≤ high ∧ high < 0xdc00 ∧ 0xdc00 ≤ low ∧ low < 0xe000

instance (high low : Nat) : Decidable (Paired high low) := inferInstanceAs (Decidable (_ ∧ _))

/-- The code point of a pair. -/
def joined (high low : Nat) : Nat := 0x10000 + (high - 0xd800) * 0x400 + (low - 0xdc00)

inductive Spelled : Char → List Char → Prop where
  | plain {c : Char} : ' ' ≤ c → c ≠ '"' → c ≠ '\\' → Spelled c [c]
  | short {c mark : Char} : short? mark = some c → Spelled c ['\\', mark]
  | unit {c : Char} {digits : List Char} :
      unit? digits = some c.toNat → Spelled c ('\\' :: 'u' :: digits)
  | pair {c : Char} {high low : Nat} {first second : List Char} :
      unit? first = some high → unit? second = some low → Paired high low →
      joined high low = c.toNat → Spelled c ('\\' :: 'u' :: (first ++ '\\' :: 'u' :: second))

/-- The inside of a quoted text. -/
inductive Quoted : List Char → List Char → Prop where
  | nil : Quoted [] []
  | cons {c : Char} {cs spelling rest : List Char} :
      Spelled c spelling → Quoted cs rest → Quoted (c :: cs) (spelling ++ rest)

/-! Tokens. -/

inductive Token where
  | openArray
  | closeArray
  | openObject
  | closeObject
  | comma
  | colon
  | scalar (h : Host)
  | text (t : Text)

def mark? : Char → Option Token
  | '[' => some .openArray
  | ']' => some .closeArray
  | '\x7b' => some .openObject
  | '\x7d' => some .closeObject
  | ',' => some .comma
  | ':' => some .colon
  | _ => none

def isBlank (c : Char) : Bool := c = ' ' ∨ c = '\t' ∨ c = '\n' ∨ c = '\r'

/-- The characters of names and numbers. -/
def isWordChar (c : Char) : Bool := c.isAlphanum ∨ c = '+' ∨ c = '-' ∨ c = '.'

/-- A word may end here. -/
def Ends (rest : List Char) : Prop := ∀ c ∈ rest.head?, isWordChar c = false

inductive Spells : List Char → List Token → Prop where
  | nil : Spells [] []
  | blank {c : Char} {cs : List Char} {ts : List Token} :
      isBlank c = true → Spells cs ts → Spells (c :: cs) ts
  | mark {c : Char} {t : Token} {cs : List Char} {ts : List Token} :
      mark? c = some t → Spells cs ts → Spells (c :: cs) (t :: ts)
  | quoted {t inside cs : List Char} {ts : List Token} :
      Quoted t inside → Spells cs ts → Spells ('"' :: (inside ++ '"' :: cs)) (.text ⟨t⟩ :: ts)
  | word {word cs : List Char} {h : Host} {ts : List Token} :
      Scalar word h → Ends cs → Spells cs ts → Spells (word ++ cs) (.scalar h :: ts)

/-! Phrases. -/

mutual

inductive Phrase : List Token → Host → Prop where
  | scalar (h : Host) : Phrase [.scalar h] h
  | text (t : Text) : Phrase [.text t] (.string t)
  | emptyArray : Phrase [.openArray, .closeArray] (.array [])
  | array {ts : List Token} {items : List Host} :
      Elements ts items → Phrase (.openArray :: (ts ++ [.closeArray])) (.array items)
  | emptyObject : Phrase [.openObject, .closeObject] (.object [])
  | object {ts : List Token} {fields : List (Text × Host)} :
      Members ts fields → Phrase (.openObject :: (ts ++ [.closeObject])) (.object (Fields.settle fields))

/-- One phrase or more, with commas between them. -/
inductive Elements : List Token → List Host → Prop where
  | last {ts : List Token} {h : Host} : Phrase ts h → Elements ts [h]
  | cons {ts us : List Token} {h : Host} {items : List Host} :
      Phrase ts h → Elements us items → Elements (ts ++ .comma :: us) (h :: items)

inductive Member : List Token → Text × Host → Prop where
  | field {name : Text} {ts : List Token} {h : Host} :
      Phrase ts h → Member (.text name :: .colon :: ts) (name, h)

/-- One field or more, with commas between them. -/
inductive Members : List Token → List (Text × Host) → Prop where
  | last {ts : List Token} {f : Text × Host} : Member ts f → Members ts [f]
  | cons {ts us : List Token} {f : Text × Host} {fields : List (Text × Host)} :
      Member ts f → Members us fields → Members (ts ++ .comma :: us) (f :: fields)

end

/-- A well-formed text, and what it stands for. -/
def Denotes (text : List Char) (h : Host) : Prop := ∃ ts, Spells text ts ∧ Phrase ts h

end Json
end DynamicValues
