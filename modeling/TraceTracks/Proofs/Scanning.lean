import TraceTracks.Proofs.Spelling

/-! Tokens are read back from any of their spellings. A literal ends at its quote, whatever follows;
a number takes what it can, so what follows has to be something else. -/
namespace TraceTracks

namespace Literal
variable {l : Literal} {text cs : List Char} {p : Nat} {ps : List Nat} {c : Char}

section Points

theorem HexDigit.lt {value : Nat} (digit : HexDigit value c) : value < 16 := by
  obtain listed | listed := digit
  · exact (List.getElem?_eq_some_iff.mp listed).1
  · exact (List.getElem?_eq_some_iff.mp listed).1

theorem HexDigit.hexDigit? {value : Nat} (digit : HexDigit value c) : hexDigit? c = some value := by
  have small : ∀ i : Fin 16, Literal.hexDigit? "0123456789abcdef".toList[i] = some i.val := by
    decide
  have capital : ∀ i : Fin 16, Literal.hexDigit? "0123456789ABCDEF".toList[i] = some i.val := by
    decide
  obtain listed | listed := digit
  · obtain ⟨inside, rfl⟩ := List.getElem?_eq_some_iff.mp listed
    exact small ⟨value, inside⟩
  · obtain ⟨inside, rfl⟩ := List.getElem?_eq_some_iff.mp listed
    exact capital ⟨value, inside⟩

theorem escaped?_of_listed {letter : Char} (listed : (letter, c) ∈ abbreviations) :
    letter ≠ 'u' ∧ escaped? letter = some c := by
  have all : ∀ e ∈ abbreviations, e.1 ≠ 'u' ∧ escaped? e.1 = some e.2 := by decide
  exact all _ listed

theorem SpellsPoint.scan (spells : SpellsPoint p cs) (r : List Char) :
    scan (cs ++ r) = (Literal.scan r).map fun (ps, r) => (p :: ps, r) := by
  cases spells with
  | @plain c printable quote backslash =>
    rw [List.singleton_append, Literal.scan.eq_5 c r quote (fun _ _ _ _ _ same _ => backslash same)
      fun _ _ same _ => backslash same, if_neg (Nat.not_lt.mpr printable)]
    cases Literal.scan r <;> rfl
  | @short letter c listed =>
    obtain ⟨plain, escaped⟩ := escaped?_of_listed listed
    change Literal.scan ('\\' :: letter :: r) = _
    rw [Literal.scan.eq_4 letter r fun _ _ _ _ _ same _ => plain same, escaped]
    cases Literal.scan r <;> rfl
  | @hex n₃ n₂ n₁ n₀ c₃ c₂ c₁ c₀ h₃ h₂ h₁ h₀ =>
    change Literal.scan ('\\' :: 'u' :: c₃ :: c₂ :: c₁ :: c₀ :: r) = _
    rw [Literal.scan.eq_3, hex4?, h₃.hexDigit?, h₂.hexDigit?, h₁.hexDigit?, h₀.hexDigit?]
    cases Literal.scan r <;> rfl

theorem SpellsPoints.scan (spells : SpellsPoints ps cs) (r : List Char) :
    scan (cs ++ '"' :: r) = some (ps, r) := by
  induction spells with
  | nil => rfl
  | cons first others ih =>
    rw [List.append_assoc, first.scan, ih]
    rfl

end Points

section Surrogates

theorem valid_toNat (c : Char) : c.toNat < 0xd800 ∨ 0xdfff < c.toNat ∧ c.toNat < 0x110000 := c.valid

theorem toNat_ofNat (valid : p.isValidChar) : (Char.ofNat p).toNat = p := by
  rw [Char.ofNat, dif_pos valid]
  rfl

theorem SpellsPoint.lt (spells : SpellsPoint p cs) : p < 0x110000 := by
  have bound (c : Char) : c.toNat < 0x110000 := by
    have valid := valid_toNat c
    omega
  cases spells with
  | plain => exact bound _
  | short => exact bound _
  | hex h₃ h₂ h₁ h₀ =>
    have b₃ := h₃.lt
    have b₂ := h₂.lt
    have b₁ := h₁.lt
    have b₀ := h₀.lt
    omega

theorem SpellsPoints.lt (spells : SpellsPoints ps cs) : ∀ p ∈ ps, p < 0x110000 := by
  induction spells with
  | nil => exact fun p mem => absurd mem List.not_mem_nil
  | cons first others ih => exact List.forall_mem_cons.mpr ⟨first.lt, ih⟩

theorem isLeading_iff : isLeading p = true ↔ 0xd800 ≤ p ∧ p < 0xdc00 := by
  rw [isLeading, Bool.and_eq_true, decide_eq_true_eq, decide_eq_true_eq]

theorem isTrailing_iff : isTrailing p = true ↔ 0xdc00 ≤ p ∧ p < 0xe000 := by
  rw [isTrailing, Bool.and_eq_true, decide_eq_true_eq, decide_eq_true_eq]

theorem isLeading_toNat (c : Char) : isLeading c.toNat = false := by
  have valid := valid_toNat c
  rw [Bool.eq_false_iff, Ne, isLeading_iff]
  omega

theorem isTrailing_toNat (c : Char) : isTrailing c.toNat = false := by
  have valid := valid_toNat c
  rw [Bool.eq_false_iff, Ne, isTrailing_iff]
  omega

theorem isLeading_leading (c : Char) : isLeading (leading c) = true := by
  have valid := valid_toNat c
  rw [isLeading_iff, leading]
  omega

theorem isTrailing_trailing (c : Char) : isTrailing (trailing c) = true := by
  rw [isTrailing_iff, trailing]
  omega

theorem pair_leading_trailing (beyond : 0x10000 ≤ c.toNat) :
    pair (leading c) (trailing c) = c.toNat := by
  have split := Nat.div_add_mod' (c.toNat - 0x10000) 0x400
  unfold pair leading trailing
  rw [Nat.add_sub_cancel_left, Nat.add_sub_cancel_left, Nat.add_assoc, split,
    Nat.add_sub_cancel' beyond]

theorem assemble?_toNat_cons (c : Char) (ps : List Nat) :
    assemble? (c.toNat :: ps) = (assemble? ps).map (c :: ·) := by
  cases ps with
  | nil => simp [assemble?, isLeading_toNat, isTrailing_toNat]
  | cons q ps => simp [assemble?, isLeading_toNat, isTrailing_toNat]

theorem Encodes.assemble? (encodes : Encodes text ps) : assemble? ps = some text := by
  induction encodes with
  | nil => rfl
  | whole c rest ih => rw [assemble?_toNat_cons, ih, Option.map_some]
  | split c beyond rest ih =>
    rw [Literal.assemble?.eq_3, if_pos (isLeading_leading c), if_pos (isTrailing_trailing c), ih,
      pair_leading_trailing beyond, Char.ofNat_toNat]
    rfl

theorem toNat_ofNat_of_whole (bound : p < 0x110000)
    (whole : ¬(isLeading p || isTrailing p) = true) : (Char.ofNat p).toNat = p := by
  rw [Bool.or_eq_true, isLeading_iff, isTrailing_iff] at whole
  have valid : p.isValidChar := by
    unfold Nat.isValidChar
    omega
  exact toNat_ofNat valid

theorem pair_apart {q : Nat} (leads : isLeading p = true) (trails : isTrailing q = true) :
    0x10000 ≤ (Char.ofNat (pair p q)).toNat ∧ leading (Char.ofNat (pair p q)) = p ∧
      trailing (Char.ofNat (pair p q)) = q := by
  rw [isLeading_iff] at leads
  rw [isTrailing_iff] at trails
  have valid : (pair p q).isValidChar := by
    unfold Nat.isValidChar pair
    omega
  rw [leading, trailing, toNat_ofNat valid]
  unfold pair
  omega

theorem encodes_of_assemble? (bounded : ∀ p ∈ ps, p < 0x110000)
    (assembled : assemble? ps = some text) : Encodes text ps := by
  fun_induction assemble? ps generalizing text with
  | case1 => exact Option.some.inj assembled ▸ .nil
  | case2 p half => cases assembled
  | case3 p whole =>
    have number := toNat_ofNat_of_whole (bounded p List.mem_cons_self) whole
    have encodes := Encodes.whole (Char.ofNat p) .nil
    rw [number] at encodes
    exact Option.some.inj assembled ▸ encodes
  | case4 p q r leads trails ih =>
    obtain ⟨rest, others, rfl⟩ := Option.map_eq_some_iff.mp assembled
    obtain ⟨beyond, first, second⟩ := pair_apart leads trails
    have below : ∀ p ∈ r, p < 0x110000 :=
      fun p mem => bounded p (List.mem_cons_of_mem _ (List.mem_cons_of_mem _ mem))
    have encodes := Encodes.split (Char.ofNat (pair p q)) beyond (ih below others)
    rwa [first, second] at encodes
  | case5 p q r leads alone => cases assembled
  | case6 p q r starts trails => cases assembled
  | case7 p q r starts ends ih =>
    obtain ⟨rest, others, rfl⟩ := Option.map_eq_some_iff.mp assembled
    have whole : ¬(isLeading p || isTrailing p) = true := by simp [starts, ends]
    have number := toNat_ofNat_of_whole (bounded p List.mem_cons_self) whole
    have below := fun p mem => bounded p (List.mem_cons_of_mem _ mem)
    have encodes := Encodes.whole (Char.ofNat p) (ih below others)
    rwa [number] at encodes

end Surrogates

theorem Spells.read? (spells : Spells l cs) (r : List Char) :
    ∃ body, cs = '"' :: body ∧ Literal.read? (body ++ r) = some (l, r) := by
  cases spells with
  | @text s ps cs encodes spells =>
    refine ⟨cs ++ ['"'], rfl, ?_⟩
    rw [List.append_assoc, Literal.read?, List.singleton_append, spells.scan, Option.map_some]
    dsimp only
    rw [encodes.assemble?, Option.map_some, String.ofList_toList]
  | @broken ps cs textless spells =>
    refine ⟨cs ++ ['"'], rfl, ?_⟩
    have unassembled : Literal.assemble? ps = none :=
      Option.eq_none_iff_forall_ne_some.mpr fun text assembled =>
        textless text (encodes_of_assemble? spells.lt assembled)
    rw [List.append_assoc, Literal.read?, List.singleton_append, spells.scan, Option.map_some]
    dsimp only
    rw [unassembled, Option.map_none]

end Literal

namespace Json

namespace Numeral
variable {ds cs r : List Char}

def Stops (r : List Char) : Prop := ∀ c, r.head? = some c → c.isDigit = false

/-- Nothing comes first that could belong to a number. -/
def Ends (r : List Char) : Prop :=
  ∀ c, r.head? = some c → c.isDigit = false ∧ c ∉ ['.', 'e', 'E']

theorem Ends.stops (ends : Ends r) : Stops r := fun c first => (ends c first).1

theorem stops_of_not_digit {c : Char} (other : c.isDigit = false) : Stops (c :: r) :=
  fun _ first => Option.some.inj first ▸ other

theorem Stops.takeWhile (stops : Stops r) : r.takeWhile Token.isDigit = [] := by
  cases r with
  | nil => rfl
  | cons c r => exact List.takeWhile_cons_of_neg (Bool.eq_false_iff.mp (stops c rfl))

theorem Stops.dropWhile (stops : Stops r) : r.dropWhile Token.isDigit = r := by
  cases r with
  | nil => rfl
  | cons c r => exact List.dropWhile_cons_of_neg (Bool.eq_false_iff.mp (stops c rfl))

theorem Digits.head (digits : Digits ds) : ∃ c rest, ds = c :: rest ∧ c.isDigit = true := by
  obtain ⟨nonempty, all⟩ := digits
  obtain ⟨c, rest, rfl⟩ := List.exists_cons_of_ne_nil nonempty
  exact ⟨c, rest, rfl, all c List.mem_cons_self⟩

theorem Digits.digits? (digits : Digits ds) (stops : Stops r) :
    Token.digits? (ds ++ r) = some (ds, r) := by
  have all : ∀ c ∈ ds, Token.isDigit c = true := digits.2
  rw [Token.digits?, List.takeWhile_append_of_pos all, List.dropWhile_append_of_pos all,
    stops.takeWhile, stops.dropWhile, List.append_nil, if_neg]
  rw [List.isEmpty_iff]
  exact digits.1

theorem Whole.whole? (whole : Whole ds) (stops : Stops r) :
    Token.whole? (ds ++ r) = some (ds, r) := by
  obtain ⟨digits, alone⟩ := whole
  obtain ⟨c, rest, rfl, -⟩ := digits.head
  by_cases zero : c = '0'
  · subst zero
    rw [alone rfl]
    rfl
  · rw [Token.whole?.eq_2 (c :: rest ++ r) fun _ same => zero (List.cons.inj same).1]
    exact digits.digits? stops

theorem Fraction.fraction? (fractional : Fraction cs) (stops : Stops r)
    (pointless : r.head? ≠ some '.') : Token.fraction? (cs ++ r) = some (cs, r) := by
  obtain rfl | ⟨ds, digits, rfl⟩ := fractional
  · exact Token.fraction?.eq_2 r fun rest same => pointless (by rw [same]; rfl)
  · rw [List.cons_append, Token.fraction?, digits.digits? stops]
    rfl

theorem signedDigits?_append {sign : List Char} (signed : sign = [] ∨ sign = ['+'] ∨ sign = ['-'])
    (digits : Digits ds) (stops : Stops r) :
    Token.signedDigits? (sign ++ ds ++ r) = some (sign ++ ds, r) := by
  have read := digits.digits? stops
  obtain rfl | rfl | rfl := signed
  · obtain ⟨c, rest, rfl, digit⟩ := digits.head
    have unsigned (sign : Char) (other : sign.isDigit = false) (tail : List Char) :
        c :: rest ++ r ≠ sign :: tail := by
      rintro ⟨⟩
      rw [other] at digit
      cases digit
    rw [List.nil_append,
      Token.signedDigits?.eq_3 (c :: rest ++ r) (unsigned '+' rfl) (unsigned '-' rfl)]
    exact read
  · change (Token.digits? (ds ++ r)).map _ = _
    rw [read]
    rfl
  · change (Token.digits? (ds ++ r)).map _ = _
    rw [read]
    rfl

theorem Exponent.exponent? (scaled : Exponent cs) (ends : Ends r) :
    Token.exponent? (cs ++ r) = some (cs, r) := by
  obtain rfl | ⟨mark, sign, ds, marked, signed, digits, rfl⟩ := scaled
  · refine Token.exponent?.eq_3 r (fun rest same => ?_) fun rest same => ?_
    · exact (ends 'e' (by rw [same]; rfl)).2 (by decide)
    · exact (ends 'E' (by rw [same]; rfl)).2 (by decide)
  · have read := signedDigits?_append signed digits ends.stops
    obtain rfl | rfl := marked
    · change (Token.signedDigits? (sign ++ ds ++ r)).map _ = _
      rw [read]
      rfl
    · change (Token.signedDigits? (sign ++ ds ++ r)).map _ = _
      rw [read]
      rfl

theorem magnitude?_append {fraction exponent : List Char} (whole : Whole ds)
    (fractional : Fraction fraction) (scaled : Exponent exponent) (ends : Ends r) :
    Token.magnitude? (ds ++ (fraction ++ exponent) ++ r) =
      some ((ds, fraction ++ exponent), r) := by
  have last := scaled.exponent? ends
  have unscaled : Stops (exponent ++ r) ∧ (exponent ++ r).head? ≠ some '.' := by
    obtain rfl | ⟨mark, sign, es, marked, -, -, rfl⟩ := scaled
    · exact ⟨ends.stops, fun point => (ends '.' point).2 (by decide)⟩
    · obtain rfl | rfl := marked
      · exact ⟨stops_of_not_digit rfl, by simp⟩
      · exact ⟨stops_of_not_digit rfl, by simp⟩
  have middle := fractional.fraction? unscaled.1 unscaled.2
  have first : Stops (fraction ++ (exponent ++ r)) := by
    obtain rfl | ⟨fs, -, rfl⟩ := fractional
    · exact unscaled.1
    · exact stops_of_not_digit rfl
  rw [List.append_assoc, List.append_assoc, Token.magnitude?, whole.whole? first]
  dsimp only [Option.bind_eq_bind, Option.bind_some]
  rw [middle, Option.bind_some, last]
  rfl

theorem number?_append {fraction exponent : List Char} (whole : Whole ds)
    (fractional : Fraction fraction) (scaled : Exponent exponent) (ends : Ends r) :
    Token.number? (ds ++ (fraction ++ exponent) ++ r) =
      some (if (fraction ++ exponent).isEmpty then .int (value ds)
        else .real (String.ofList (ds ++ (fraction ++ exponent))), r) := by
  have read := magnitude?_append whole fractional scaled ends
  have unsigned : ∀ rest, ds ++ (fraction ++ exponent) ++ r ≠ '-' :: rest := by
    obtain ⟨c, rest, rfl, digit⟩ := whole.1.head
    rintro rest ⟨⟩
    cases digit
  rw [Token.number?.eq_2 _ unsigned, read]
  rfl

theorem number?_minus {fraction exponent : List Char} (whole : Whole ds)
    (fractional : Fraction fraction) (scaled : Exponent exponent) (ends : Ends r) :
    Token.number? ('-' :: (ds ++ (fraction ++ exponent) ++ r)) =
      some (if (fraction ++ exponent).isEmpty && ds != ['0'] then .int (-(value ds : Int))
        else .real (String.ofList ('-' :: ds ++ (fraction ++ exponent))), r) := by
  rw [Token.number?, magnitude?_append whole fractional scaled ends]
  rfl

end Numeral

open Numeral in
theorem SpellsNumber.number? {v : Json} {cs r : List Char} (spells : SpellsNumber v cs)
    (ends : Ends r) : Token.number? (cs ++ r) = some (v, r) := by
  have none : Fraction [] ∧ Exponent [] := ⟨.inl rfl, .inl rfl⟩
  cases spells with
  | natural whole =>
    have read := number?_append whole none.1 none.2 ends
    rwa [List.append_nil, List.append_nil] at read
  | negative whole nonzero =>
    have read := number?_minus whole none.1 none.2 ends
    rw [List.append_nil, List.append_nil, if_pos (by simpa using nonzero)] at read
    exact read
  | minusZero =>
    have zero : Whole ['0'] := ⟨⟨by simp, by simp⟩, fun _ => rfl⟩
    exact number?_minus zero none.1 none.2 ends
  | real signed whole fractional scaled tail =>
    have more := List.isEmpty_eq_false_iff.mpr tail
    obtain rfl | rfl := signed
    · have read := number?_append whole fractional scaled ends
      rwa [more] at read
    · have read := number?_minus whole fractional scaled ends
      rwa [more] at read

theorem SpellsNumber.head {v : Json} {cs : List Char} (spells : SpellsNumber v cs) :
    ∃ c rest, cs = c :: rest ∧ (c = '-' ∨ c.isDigit = true) := by
  cases spells with
  | natural whole =>
    obtain ⟨c, rest, rfl, digit⟩ := whole.1.head
    exact ⟨c, rest, rfl, .inr digit⟩
  | negative whole nonzero => exact ⟨_, _, rfl, .inl rfl⟩
  | minusZero => exact ⟨_, _, rfl, .inl rfl⟩
  | real signed whole fractional scaled tail =>
    obtain rfl | rfl := signed
    · obtain ⟨c, rest, rfl, digit⟩ := whole.1.head
      exact ⟨c, _, rfl, .inr digit⟩
    · exact ⟨_, _, rfl, .inl rfl⟩

namespace Token
variable {t : Token} {ts : List Token} {cs r : List Char}

def isAtom : Token → Bool
  | .atom _ => true
  | _ => false

theorem first?_of_number {c : Char} (numeric : c = '-' ∨ c.isDigit = true) (cs : List Char) :
    first? (c :: cs) = (number? (c :: cs)).map fun (v, r) => (.atom v, r) := by
  have other (d : Char) (notMinus : d ≠ '-') (notDigit : d.isDigit = false) (rest : List Char) :
      c :: cs ≠ d :: rest := by
    rintro ⟨⟩
    obtain minus | digit := numeric
    · exact notMinus minus
    · rw [notDigit] at digit
      cases digit
  exact first?.eq_11 (c :: cs) (other '[' (by decide) rfl) (other ']' (by decide) rfl)
    (other '\x7b' (by decide) rfl) (other '\x7d' (by decide) rfl) (other ',' (by decide) rfl)
    (other ':' (by decide) rfl) (other '"' (by decide) rfl)
    (fun r => other 'n' (by decide) rfl _) (fun r => other 't' (by decide) rfl _)
    (fun r => other 'f' (by decide) rfl _)

/-- A token is read back from any of its spellings, if what follows cannot be part of it. -/
theorem Spells.first? (spells : t.Spells cs) (ends : t.isAtom = true → Numeral.Ends r) :
    first? (cs ++ r) = some (t, r) := by
  cases spells with
  | str spells =>
    obtain ⟨body, rfl, read⟩ := spells.read? r
    change (Literal.read? (body ++ r)).map _ = _
    rw [read]
    rfl
  | number spells =>
    obtain ⟨c, rest, rfl, numeric⟩ := spells.head
    have read := spells.number? (ends rfl)
    rw [List.cons_append] at read ⊢
    rw [first?_of_number numeric, read]
    rfl
  | _ => rfl

theorem isBlank_iff {c : Char} :
    isBlank c = true ↔ c = ' ' ∨ c = '\t' ∨ c = '\n' ∨ c = '\r' := by
  simp [isBlank, or_assoc]

theorem isBlank_of_isDigit {c : Char} (digit : c.isDigit = true) : isBlank c = false := by
  rw [← Bool.not_eq_true, isBlank_iff]
  rintro (rfl | rfl | rfl | rfl) <;> cases digit

theorem Spells.head (spells : t.Spells cs) : ∃ c rest, cs = c :: rest ∧ isBlank c = false ∧
    (t.isAtom = false → c.isDigit = false ∧ c ∉ ['.', 'e', 'E']) := by
  cases spells with
  | str spells =>
    obtain ⟨body, rfl, -⟩ := spells.read? []
    exact ⟨'"', body, rfl, rfl, fun _ => ⟨rfl, by decide⟩⟩
  | number spells =>
    obtain ⟨c, rest, rfl, numeric⟩ := spells.head
    have blank : isBlank c = false := by
      obtain rfl | digit := numeric
      · rfl
      · exact isBlank_of_isDigit digit
    exact ⟨c, rest, rfl, blank, nofun⟩
  | _ => exact ⟨_, _, rfl, rfl, fun _ => ⟨rfl, by decide⟩⟩

def Opens (ts : List Token) : Prop := ∀ t, ts.head? = some t → t.isAtom = false

def Apart : List Token → Prop
  | [] => True
  | t :: ts => (t.isAtom = true → Opens ts) ∧ Apart ts

theorem ends_of_blank {blanks : List Char} (blank : Blank blanks) (ends : Numeral.Ends r) :
    Numeral.Ends (blanks ++ r) := by
  cases blanks with
  | nil => exact ends
  | cons c blanks =>
    intro d first
    obtain rfl := Option.some.inj first
    obtain rfl | rfl | rfl | rfl := blank c List.mem_cons_self <;> exact ⟨rfl, by decide⟩

theorem SpellsAll.ends (spells : SpellsAll ts cs) (opens : Opens ts) : Numeral.Ends cs := by
  cases spells with
  | nil blank => exact List.append_nil cs ▸ ends_of_blank blank nofun
  | cons blank first rest =>
    obtain ⟨c, cs, rfl, -, numeric⟩ := first.head
    refine ends_of_blank blank fun d same => ?_
    obtain rfl := Option.some.inj same
    exact numeric (opens _ rfl)

theorem dropWhile_blank {blanks : List Char} (blank : Blank blanks) :
    (blanks ++ r).dropWhile isBlank = r.dropWhile isBlank :=
  List.dropWhile_append_of_pos fun c mem => isBlank_iff.mpr (blank c mem)

/-- A series of tokens is read back from any of its spellings. -/
theorem SpellsAll.all? (spells : SpellsAll ts cs) (apart : Apart ts) : all? cs = some ts := by
  induction spells with
  | @nil blanks blank =>
    have none := dropWhile_blank (r := []) blank
    rw [List.append_nil] at none
    rw [Token.all?]
    split
    next => rfl
    next more => rw [none] at more; cases more
  | @cons t ts blanks cs r blank first rest ih =>
    obtain ⟨alone, apart⟩ := apart
    have read := first.first? fun atom => rest.ends (alone atom)
    obtain ⟨c, cs, rfl, visible, -⟩ := first.head
    have skipped : (blanks ++ (c :: cs ++ r)).dropWhile isBlank = c :: (cs ++ r) := by
      rw [dropWhile_blank blank]
      exact List.dropWhile_cons_of_neg (Bool.eq_false_iff.mp visible)
    rw [Token.all?]
    split
    next none => rw [skipped] at none; cases none
    next d ds some =>
      rw [skipped] at some
      cases some
      rw [List.cons_append] at read
      split
      next unread => rw [read] at unread; cases unread
      next u remainder found =>
        rw [read] at found
        cases found
        rw [ih apart]
        rfl

end Token
end Json
end TraceTracks
