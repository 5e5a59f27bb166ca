import TraceTracks.Proofs.Scanning

/-! Documents and their texts. A document is read from any text that spells it, however deep it is
nested: the reader keeps one frame for each container that is open. The text that is written of a
document spells it, so it is read back. -/
namespace TraceTracks

namespace Json

section Apart
variable {ts : List Token}
open Token

theorem opens_cons {t : Token} (mark : t.isAtom = false) : Opens (t :: ts) :=
  fun _ first => Option.some.inj first ▸ mark

theorem apart_cons {t : Token} (mark : t.isAtom = false) (apart : Apart ts) : Apart (t :: ts) :=
  ⟨fun atom => (Bool.false_ne_true (mark ▸ atom)).elim, apart⟩

theorem opens_moreItems (vs : List Json) : Opens (moreItems vs ++ ts) := by
  cases vs with
  | nil => exact opens_cons rfl
  | cons v vs => exact opens_cons rfl

theorem opens_moreMembers (ms : List (Literal × Json)) : Opens (moreMembers ms ++ ts) := by
  obtain _ | ⟨⟨name, v⟩, ms⟩ := ms
  · exact opens_cons rfl
  · exact opens_cons rfl

mutual

/-- In a document, punctuation stands between any two atoms. -/
theorem apart_tokens (j : Json) {ts : List Token} (opens : Opens ts) (apart : Apart ts) :
    Apart (j.tokens ++ ts) := by
  match j with
  | .null => exact ⟨fun _ => opens, apart⟩
  | .bool _ => exact ⟨fun _ => opens, apart⟩
  | .int _ => exact ⟨fun _ => opens, apart⟩
  | .real _ => exact ⟨fun _ => opens, apart⟩
  | .str _ => exact apart_cons rfl apart
  | .arr [] => exact apart_cons rfl (apart_cons rfl apart)
  | .arr (v :: vs) =>
    rw [tokens_arr_append]
    exact apart_cons rfl (apart_tokens v (opens_moreItems vs) (apart_moreItems vs apart))
  | .obj [] => exact apart_cons rfl (apart_cons rfl apart)
  | .obj ((name, v) :: ms) =>
    rw [tokens_obj_append]
    exact apart_cons rfl (apart_cons rfl (apart_cons rfl
      (apart_tokens v (opens_moreMembers ms) (apart_moreMembers ms apart))))

theorem apart_moreItems (vs : List Json) {ts : List Token} (apart : Apart ts) :
    Apart (moreItems vs ++ ts) := by
  match vs with
  | [] => exact apart_cons rfl apart
  | v :: vs =>
    rw [moreItems_append]
    exact apart_cons rfl (apart_tokens v (opens_moreItems vs) (apart_moreItems vs apart))

theorem apart_moreMembers (ms : List (Literal × Json)) {ts : List Token} (apart : Apart ts) :
    Apart (moreMembers ms ++ ts) := by
  match ms with
  | [] => exact apart_cons rfl apart
  | (name, v) :: ms =>
    rw [moreMembers_append]
    exact apart_cons rfl (apart_cons rfl (apart_cons rfl
      (apart_tokens v (opens_moreMembers ms) (apart_moreMembers ms apart))))

end

end Apart

namespace Reader
variable {ts : List Token} {fs : List Frame}

abbrev Delivers (v : Json) (fs : List Frame) (ts : List Token) : Option Reader :=
  (deliver v fs).bind fun r => ts.foldlM step r

theorem foldlM_firstItem (v : Json) :
    (v.tokens ++ ts).foldlM step ⟨.firstItem, fs⟩ = (v.tokens ++ ts).foldlM step ⟨.value, fs⟩ := by
  match v with
  | .null => rfl
  | .bool _ => rfl
  | .int _ => rfl
  | .real _ => rfl
  | .str _ => rfl
  | .arr [] => rfl
  | .arr (_ :: _) =>
    rw [tokens]
    rfl
  | .obj [] => rfl
  | .obj ((_, _) :: _) =>
    rw [tokens]
    rfl

mutual

theorem foldlM_tokens (v : Json) (fs : List Frame) (ts : List Token) :
    (v.tokens ++ ts).foldlM step ⟨.value, fs⟩ = Delivers v fs ts := by
  match v with
  | .null => rfl
  | .bool _ => rfl
  | .int _ => rfl
  | .real _ => rfl
  | .str _ => rfl
  | .arr [] => rfl
  | .arr (v :: vs) =>
    rw [tokens_arr_append]
    change (v.tokens ++ (moreItems vs ++ ts)).foldlM step ⟨.firstItem, .items [] :: fs⟩ = _
    rw [foldlM_firstItem, foldlM_tokens v]
    exact foldlM_moreItems vs [v] fs ts
  | .obj [] => rfl
  | .obj ((name, v) :: ms) =>
    rw [tokens_obj_append]
    change (v.tokens ++ (moreMembers ms ++ ts)).foldlM step ⟨.value, .member [] name :: fs⟩ = _
    rw [foldlM_tokens v]
    exact foldlM_moreMembers ms [(name, v)] fs ts

theorem foldlM_moreItems (vs done : List Json) (fs : List Frame) (ts : List Token) :
    (moreItems vs ++ ts).foldlM step ⟨.commaOrClose, .items done :: fs⟩ =
      Delivers (.arr (done.reverse ++ vs)) fs ts := by
  match vs with
  | [] =>
    rw [List.append_nil]
    rfl
  | v :: vs =>
    rw [moreItems_append]
    change (v.tokens ++ (moreItems vs ++ ts)).foldlM step ⟨.value, .items done :: fs⟩ = _
    rw [foldlM_tokens v, List.append_cons, ← List.reverse_cons]
    exact foldlM_moreItems vs (v :: done) fs ts

theorem foldlM_moreMembers (ms done : List (Literal × Json)) (fs : List Frame) (ts : List Token) :
    (moreMembers ms ++ ts).foldlM step ⟨.commaOrClose, .members done :: fs⟩ =
      Delivers (.obj (done.reverse ++ ms)) fs ts := by
  match ms with
  | [] =>
    rw [List.append_nil]
    rfl
  | (name, v) :: ms =>
    rw [moreMembers_append]
    change (v.tokens ++ (moreMembers ms ++ ts)).foldlM step ⟨.value, .member done name :: fs⟩ = _
    rw [foldlM_tokens v, List.append_cons, ← List.reverse_cons]
    exact foldlM_moreMembers ms ((name, v) :: done) fs ts

end

end Reader

/-- A document is read from any text that spells it. -/
theorem Spells.read? {j : Json} {text : String} (spells : j.Spells text) :
    Json.read? text = some j := by
  have apart : Token.Apart (j.tokens ++ []) := apart_tokens j nofun trivial
  have delivers := Reader.foldlM_tokens j [] []
  rw [List.append_nil] at apart delivers
  unfold Json.read?
  rw [spells.all? apart, Option.bind_eq_bind, Option.bind_some, Reader.start, delivers]
  rfl

end Json

namespace Literal

theorem hexDigit_hexChar {n : Nat} (small : n < 16) : HexDigit n (hexChar n) := by
  have all : ∀ i : Fin 16, "0123456789abcdef".toList[i.val]? = some (hexChar i) := by decide
  exact .inl (all ⟨n, small⟩)

theorem spellsPoint_writeChar (c : Char) : SpellsPoint c.toNat (writeChar c) := by
  unfold writeChar
  split
  next quote =>
    subst quote
    exact .short (by decide)
  next quote =>
    split
    next backslash =>
      subst backslash
      exact .short (by decide)
    next backslash =>
      split
      next control =>
        have high := hexDigit_hexChar (n := c.toNat / 16) (by omega)
        have low := hexDigit_hexChar (n := c.toNat % 16) (by omega)
        have zero : HexDigit 0 '0' := .inl rfl
        have spells := SpellsPoint.hex zero zero high low
        have number : ((0 * 16 + 0) * 16 + c.toNat / 16) * 16 + c.toNat % 16 = c.toNat := by omega
        rwa [number] at spells
      next printable => exact .plain (Nat.not_lt.mp printable) quote backslash

theorem encodes_toNat (cs : List Char) : Encodes cs (cs.map Char.toNat) := by
  induction cs with
  | nil => exact .nil
  | cons c cs ih => exact .whole c ih

theorem spellsPoints_writeChar (cs : List Char) :
    SpellsPoints (cs.map Char.toNat) (cs.flatMap writeChar) := by
  induction cs with
  | nil => exact .nil
  | cons c cs ih => exact .cons (spellsPoint_writeChar c) ih

theorem spells_write (l : Literal) : l.Spells l.write := by
  cases l with
  | none =>
    have digit (n : Nat) (small : n < 16) : HexDigit n (hexChar n) := hexDigit_hexChar small
    have half : SpellsPoints [0xd800] ['\\', 'u', 'd', '8', '0', '0'] :=
      .cons (.hex (digit 13 (by decide)) (digit 8 (by decide)) (digit 0 (by decide))
        (digit 0 (by decide))) .nil
    have textless : assemble? [0xd800] = none := by decide
    refine .broken (fun text encodes => ?_) half
    rw [encodes.assemble?] at textless
    cases textless
  | some s => exact .text (encodes_toNat s.toList) (spellsPoints_writeChar s.toList)

end Literal

namespace Json

namespace Numeral

theorem head?_toDigits {n : Nat} (positive : 0 < n) : (Nat.toDigits 10 n).head? ≠ some '0' := by
  induction n using Nat.strongRecOn with
  | ind n ih =>
    rw [Nat.toDigits_eq_if (by decide)]
    split
    next small =>
      have digits : ∀ d : Fin 10, 0 < d.val → d.val.digitChar ≠ '0' := by decide
      simpa using digits ⟨n, small⟩ positive
    next large =>
      have tens : 0 < n / 10 := Nat.div_pos (Nat.not_lt.mp large) (by decide)
      have first := ih (n / 10) (Nat.div_lt_self positive (by decide)) tens
      have nonempty : Nat.toDigits 10 (n / 10) ≠ [] := Nat.toDigits_ne_nil
      obtain ⟨c, cs, digits⟩ := List.exists_cons_of_ne_nil nonempty
      rw [digits] at first ⊢
      exact first

theorem whole_repr (n : Nat) : Whole n.repr.toList := by
  rw [Nat.toList_repr]
  refine ⟨⟨Nat.toDigits_ne_nil, fun c => Nat.isDigit_of_mem_toDigits (by decide) (by decide)⟩, ?_⟩
  intro zero
  obtain rfl : n = 0 :=
    Nat.eq_zero_of_not_pos fun positive => head?_toDigits positive zero
  exact Nat.toDigits_of_lt_base (by decide)

theorem value_repr (n : Nat) : value n.repr.toList = n := by
  rw [Nat.toList_repr, value]
  exact Nat.ofDigitChars_toDigits (by decide) (by decide)

end Numeral

theorem spellsNumber_int (n : Int) : SpellsNumber (.int n) (write (.int n)) := by
  have whole := Numeral.whole_repr n.natAbs
  have value := Numeral.value_repr n.natAbs
  rw [write]
  split
  next negative =>
    have nonzero : n.natAbs.repr.toList ≠ ['0'] := by
      intro zero
      rw [zero] at value
      have : Numeral.value ['0'] = 0 := rfl
      omega
    have spells := SpellsNumber.negative whole nonzero
    rwa [value, show -(n.natAbs : Int) = n by omega] at spells
  next natural =>
    have spells := SpellsNumber.natural whole
    rwa [value, show (n.natAbs : Int) = n by omega] at spells

/-- All numbers other than integers are numbers. -/
def Numeric (ts : List Token) : Prop :=
  ∀ numeral, Token.atom (.real numeral) ∈ ts → SpellsNumber (.real numeral) numeral.toList

theorem Numeric.left {ts us : List Token} (numeric : Numeric (ts ++ us)) : Numeric ts :=
  fun numeral mem => numeric numeral (List.mem_append_left us mem)

theorem Numeric.right {ts us : List Token} (numeric : Numeric (ts ++ us)) : Numeric us :=
  fun numeral mem => numeric numeral (List.mem_append_right ts mem)

theorem Numeric.tail {t : Token} {ts : List Token} (numeric : Numeric (t :: ts)) : Numeric ts :=
  fun numeral mem => numeric numeral (List.mem_cons_of_mem t mem)

def writeMoreItems : List Json → List Char
  | [] => [']']
  | v :: vs => ',' :: writeItems (v :: vs)

def writeMoreMembers : List (Literal × Json) → List Char
  | [] => ['\x7d']
  | m :: ms => ',' :: writeMembers (m :: ms)

theorem writeItems_cons (v : Json) (vs : List Json) :
    writeItems (v :: vs) = v.write ++ writeMoreItems vs := by
  cases vs with
  | nil => rw [writeItems, writeMoreItems]
  | cons w vs => rw [writeItems, writeMoreItems]

theorem writeMembers_cons (name : Literal) (v : Json) (ms : List (Literal × Json)) :
    writeMembers ((name, v) :: ms) = name.write ++ ':' :: (v.write ++ writeMoreMembers ms) := by
  cases ms with
  | nil => rw [writeMembers, writeMoreMembers, List.append_assoc, List.cons_append]
  | cons m ms => rw [writeMembers, writeMoreMembers, List.append_assoc, List.cons_append]

section Writing
open Token

theorem blank_nil : Blank [] := nofun

theorem spellsAll_cons {t : Token} {ts : List Token} {cs r : List Char} (first : t.Spells cs)
    (rest : SpellsAll ts r) : SpellsAll (t :: ts) (cs ++ r) :=
  SpellsAll.cons blank_nil first rest

theorem spellsAll_name {name : Literal} {ts : List Token} {r : List Char} (rest : SpellsAll ts r) :
    SpellsAll (.str name :: .colon :: ts) (name.write ++ ':' :: r) :=
  spellsAll_cons (.str name.spells_write) (spellsAll_cons .colon rest)

mutual

theorem spellsAll_write (j : Json) {ts : List Token} {r : List Char} (numeric : Numeric j.tokens)
    (rest : SpellsAll ts r) : SpellsAll (j.tokens ++ ts) (j.write ++ r) := by
  match j with
  | .null => exact spellsAll_cons .null rest
  | .bool true => exact spellsAll_cons .yes rest
  | .bool false => exact spellsAll_cons .no rest
  | .int n => exact spellsAll_cons (.number (spellsNumber_int n)) rest
  | .real numeral => exact spellsAll_cons (.number (numeric numeral List.mem_cons_self)) rest
  | .str l => exact spellsAll_cons (.str l.spells_write) rest
  | .arr [] =>
    rw [write, writeItems]
    exact spellsAll_cons (r := ']' :: r) .openArr (spellsAll_cons .closeArr rest)
  | .arr (v :: vs) =>
    rw [tokens] at numeric
    rw [tokens_arr_append, write, writeItems_cons, List.cons_append, List.append_assoc]
    exact spellsAll_cons .openArr (spellsAll_write v numeric.tail.left
      (spellsAll_writeMoreItems vs numeric.tail.right rest))
  | .obj [] =>
    rw [write, writeMembers]
    exact spellsAll_cons (r := '\x7d' :: r) .openObj (spellsAll_cons .closeObj rest)
  | .obj ((name, v) :: ms) =>
    rw [tokens] at numeric
    rw [tokens_obj_append, write, writeMembers_cons, List.cons_append, List.append_assoc,
      List.cons_append, List.append_assoc]
    exact spellsAll_cons .openObj (spellsAll_name (spellsAll_write v numeric.tail.tail.tail.left
      (spellsAll_writeMoreMembers ms numeric.tail.tail.tail.right rest)))

theorem spellsAll_writeMoreItems (vs : List Json) {ts : List Token} {r : List Char}
    (numeric : Numeric (moreItems vs)) (rest : SpellsAll ts r) :
    SpellsAll (moreItems vs ++ ts) (writeMoreItems vs ++ r) := by
  match vs with
  | [] => exact spellsAll_cons .closeArr rest
  | v :: vs =>
    rw [moreItems] at numeric
    rw [moreItems_append, writeMoreItems, writeItems_cons, List.cons_append, List.append_assoc]
    exact spellsAll_cons .comma (spellsAll_write v numeric.tail.left
      (spellsAll_writeMoreItems vs numeric.tail.right rest))

theorem spellsAll_writeMoreMembers (ms : List (Literal × Json)) {ts : List Token} {r : List Char}
    (numeric : Numeric (moreMembers ms)) (rest : SpellsAll ts r) :
    SpellsAll (moreMembers ms ++ ts) (writeMoreMembers ms ++ r) := by
  match ms with
  | [] => exact spellsAll_cons .closeObj rest
  | (name, v) :: ms =>
    rw [moreMembers] at numeric
    rw [moreMembers_append, writeMoreMembers, writeMembers_cons, List.cons_append,
      List.append_assoc, List.cons_append, List.append_assoc]
    exact spellsAll_cons .comma (spellsAll_name (spellsAll_write v numeric.tail.tail.tail.left
      (spellsAll_writeMoreMembers ms numeric.tail.tail.tail.right rest)))

end

end Writing

theorem spells_toText {j : Json} (numeric : Numeric j.tokens) : j.Spells j.toText := by
  have spells := spellsAll_write j numeric (.nil blank_nil)
  rw [List.append_nil, List.append_nil] at spells
  rw [Spells, toText, String.toList_ofList]
  exact spells

end Json
end TraceTracks
