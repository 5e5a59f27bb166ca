import TraceTracks.Json.Reader
import TraceTracks.Json.Writer

/-! How a document may be spelled. The rules are those of strict JSON: any escape of a character,
capital or small hexadecimal digits, and any blanks around a token. A document has many spellings;
what the writer gives is one of them. -/
namespace TraceTracks

namespace Literal

def HexDigit (value : Nat) (c : Char) : Prop :=
  "0123456789abcdef".toList[value]? = some c ∨ "0123456789ABCDEF".toList[value]? = some c

def abbreviations : List (Char × Char) :=
  [('"', '"'), ('\\', '\\'), ('/', '/'), ('b', '\x08'), ('f', '\x0c'), ('n', '\n'), ('r', '\r'),
    ('t', '\t')]

inductive SpellsPoint : Nat → List Char → Prop
  | plain {c : Char} (printable : 0x20 ≤ c.toNat) (quote : c ≠ '"') (backslash : c ≠ '\\') :
      SpellsPoint c.toNat [c]
  | short {letter c : Char} (listed : (letter, c) ∈ abbreviations) :
      SpellsPoint c.toNat ['\\', letter]
  | hex {n₃ n₂ n₁ n₀ : Nat} {c₃ c₂ c₁ c₀ : Char} (h₃ : HexDigit n₃ c₃) (h₂ : HexDigit n₂ c₂)
      (h₁ : HexDigit n₁ c₁) (h₀ : HexDigit n₀ c₀) :
      SpellsPoint (((n₃ * 16 + n₂) * 16 + n₁) * 16 + n₀) ['\\', 'u', c₃, c₂, c₁, c₀]

inductive SpellsPoints : List Nat → List Char → Prop
  | nil : SpellsPoints [] []
  | cons {p : Nat} {ps : List Nat} {cs r : List Char} (first : SpellsPoint p cs)
      (rest : SpellsPoints ps r) : SpellsPoints (p :: ps) (cs ++ r)

def leading (c : Char) : Nat := 0xd800 + (c.toNat - 0x10000) / 0x400

def trailing (c : Char) : Nat := 0xdc00 + (c.toNat - 0x10000) % 0x400

/-- The code points that make up a text. A character beyond the first plane may be split into a
surrogate pair. -/
inductive Encodes : List Char → List Nat → Prop
  | nil : Encodes [] []
  | whole {cs : List Char} {ps : List Nat} (c : Char) (rest : Encodes cs ps) :
      Encodes (c :: cs) (c.toNat :: ps)
  | split {cs : List Char} {ps : List Nat} (c : Char) (beyond : 0x10000 ≤ c.toNat)
      (rest : Encodes cs ps) : Encodes (c :: cs) (leading c :: trailing c :: ps)

inductive Spells : Literal → List Char → Prop
  | text {s : String} {ps : List Nat} {cs : List Char} (encodes : Encodes s.toList ps)
      (spells : SpellsPoints ps cs) : Spells (some s) ('"' :: (cs ++ ['"']))
  | broken {ps : List Nat} {cs : List Char} (textless : ∀ text, ¬Encodes text ps)
      (spells : SpellsPoints ps cs) : Spells none ('"' :: (cs ++ ['"']))

end Literal

namespace Json

namespace Numeral

def Digits (ds : List Char) : Prop := ds ≠ [] ∧ ∀ c ∈ ds, c.isDigit = true

/-- Zero, or digits that do not start with it. -/
def Whole (ds : List Char) : Prop := Digits ds ∧ (ds.head? = some '0' → ds = ['0'])

def Fraction (cs : List Char) : Prop := cs = [] ∨ ∃ ds, Digits ds ∧ cs = '.' :: ds

def Exponent (cs : List Char) : Prop :=
  cs = [] ∨ ∃ mark sign ds, (mark = 'e' ∨ mark = 'E') ∧
    (sign = [] ∨ sign = ['+'] ∨ sign = ['-']) ∧ Digits ds ∧ cs = mark :: (sign ++ ds)

def value (ds : List Char) : Nat := Nat.ofDigitChars 10 ds 0

end Numeral

open Numeral in
/-- A number. It is an integer if neither a fraction nor an exponent follows the digits, but for a
minus before zero. -/
inductive SpellsNumber : Json → List Char → Prop
  | natural {ds : List Char} (whole : Whole ds) : SpellsNumber (.int (value ds)) ds
  | negative {ds : List Char} (whole : Whole ds) (nonzero : ds ≠ ['0']) :
      SpellsNumber (.int (-(value ds : Int))) ('-' :: ds)
  | minusZero : SpellsNumber (.real "-0") ['-', '0']
  | real {sign ds fraction exponent : List Char} (signed : sign = [] ∨ sign = ['-'])
      (whole : Whole ds) (fractional : Fraction fraction) (scaled : Exponent exponent)
      (tail : fraction ++ exponent ≠ []) :
      SpellsNumber (.real (String.ofList (sign ++ (ds ++ (fraction ++ exponent)))))
        (sign ++ (ds ++ (fraction ++ exponent)))

namespace Token

inductive Spells : Token → List Char → Prop
  | openArr : Spells .openArr ['[']
  | closeArr : Spells .closeArr [']']
  | openObj : Spells .openObj ['\x7b']
  | closeObj : Spells .closeObj ['\x7d']
  | comma : Spells .comma [',']
  | colon : Spells .colon [':']
  | str {l : Literal} {cs : List Char} (spells : l.Spells cs) : Spells (.str l) cs
  | null : Spells (.atom .null) ['n', 'u', 'l', 'l']
  | yes : Spells (.atom (.bool true)) ['t', 'r', 'u', 'e']
  | no : Spells (.atom (.bool false)) ['f', 'a', 'l', 's', 'e']
  | number {v : Json} {cs : List Char} (spells : SpellsNumber v cs) : Spells (.atom v) cs

def Blank (cs : List Char) : Prop := ∀ c ∈ cs, c = ' ' ∨ c = '\t' ∨ c = '\n' ∨ c = '\r'

/-- Tokens in a row, with blanks before, between and after them. -/
inductive SpellsAll : List Token → List Char → Prop
  | nil {blanks : List Char} (blank : Blank blanks) : SpellsAll [] blanks
  | cons {t : Token} {ts : List Token} {blanks cs r : List Char} (blank : Blank blanks)
      (first : t.Spells cs) (rest : SpellsAll ts r) : SpellsAll (t :: ts) (blanks ++ (cs ++ r))

end Token

mutual

def tokens : Json → List Token
  | .str l => [.str l]
  | .arr [] => [.openArr, .closeArr]
  | .arr (v :: vs) => .openArr :: (v.tokens ++ moreItems vs)
  | .obj [] => [.openObj, .closeObj]
  | .obj ((name, v) :: ms) => .openObj :: .str name :: .colon :: (v.tokens ++ moreMembers ms)
  | v => [.atom v]

def moreItems : List Json → List Token
  | [] => [.closeArr]
  | v :: vs => .comma :: (v.tokens ++ moreItems vs)

def moreMembers : List (Literal × Json) → List Token
  | [] => [.closeObj]
  | (name, v) :: ms => .comma :: .str name :: .colon :: (v.tokens ++ moreMembers ms)

end

section Append
variable (name : Literal) (v : Json) (vs : List Json) (ms : List (Literal × Json)) (ts : List Token)

theorem tokens_arr_append :
    (arr (v :: vs)).tokens ++ ts = .openArr :: (v.tokens ++ (moreItems vs ++ ts)) := by
  rw [tokens, List.cons_append, List.append_assoc]

theorem tokens_obj_append : (obj ((name, v) :: ms)).tokens ++ ts =
    .openObj :: .str name :: .colon :: (v.tokens ++ (moreMembers ms ++ ts)) := by
  rw [tokens, List.cons_append, List.cons_append, List.cons_append, List.append_assoc]

theorem moreItems_append :
    moreItems (v :: vs) ++ ts = .comma :: (v.tokens ++ (moreItems vs ++ ts)) := by
  rw [moreItems, List.cons_append, List.append_assoc]

theorem moreMembers_append : moreMembers ((name, v) :: ms) ++ ts =
    .comma :: .str name :: .colon :: (v.tokens ++ (moreMembers ms ++ ts)) := by
  rw [moreMembers, List.cons_append, List.cons_append, List.cons_append, List.append_assoc]

end Append

def Spells (j : Json) (text : String) : Prop := Token.SpellsAll j.tokens text.toList

end Json
end TraceTracks
