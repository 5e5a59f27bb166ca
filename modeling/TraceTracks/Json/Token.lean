import TraceTracks.Json.Literal

/-! Tokens of a JSON text: punctuation, literals, and values without parts. Blanks stand between
them. -/
namespace TraceTracks.Json

inductive Token
  | openArr
  | closeArr
  | openObj
  | closeObj
  | comma
  | colon
  | str (text : Literal)
  | atom (value : Json)

namespace Token

def isBlank (c : Char) : Bool := c == ' ' || c == '\t' || c == '\n' || c == '\r'

def isDigit (c : Char) : Bool := '0' ≤ c && c ≤ '9'

def digits? (cs : List Char) : Option (List Char × List Char) :=
  if (cs.takeWhile isDigit).isEmpty then none
  else some (cs.takeWhile isDigit, cs.dropWhile isDigit)

def decimal (ds : List Char) : Nat := ds.foldl (fun n c => 10 * n + (c.toNat - '0'.toNat)) 0

def whole? : List Char → Option (List Char × List Char)
  | '0' :: r => some (['0'], r)
  | cs => digits? cs

def fraction? : List Char → Option (List Char × List Char)
  | '.' :: r => (digits? r).map fun (ds, r) => ('.' :: ds, r)
  | cs => some ([], cs)

def signedDigits? : List Char → Option (List Char × List Char)
  | '+' :: r => (digits? r).map fun (ds, r) => ('+' :: ds, r)
  | '-' :: r => (digits? r).map fun (ds, r) => ('-' :: ds, r)
  | cs => digits? cs

def exponent? : List Char → Option (List Char × List Char)
  | 'e' :: r => (signedDigits? r).map fun (ds, r) => ('e' :: ds, r)
  | 'E' :: r => (signedDigits? r).map fun (ds, r) => ('E' :: ds, r)
  | cs => some ([], cs)

def magnitude? (cs : List Char) : Option ((List Char × List Char) × List Char) := do
  let (whole, r) ← whole? cs
  let (fraction, r) ← fraction? r
  let (exponent, r) ← exponent? r
  return ((whole, fraction ++ exponent), r)

def number? : List Char → Option (Json × List Char)
  | '-' :: r => (magnitude? r).map fun ((whole, tail), r) =>
    (if tail.isEmpty && whole != ['0'] then .int (-(decimal whole : Int))
      else .real (String.ofList ('-' :: whole ++ tail)), r)
  | cs => (magnitude? cs).map fun ((whole, tail), r) =>
    (if tail.isEmpty then .int (decimal whole) else .real (String.ofList (whole ++ tail)), r)

def first? : List Char → Option (Token × List Char)
  | '[' :: r => some (.openArr, r)
  | ']' :: r => some (.closeArr, r)
  | '\x7b' :: r => some (.openObj, r)
  | '\x7d' :: r => some (.closeObj, r)
  | ',' :: r => some (.comma, r)
  | ':' :: r => some (.colon, r)
  | '"' :: r => (Literal.read? r).map fun (l, r) => (.str l, r)
  | 'n' :: 'u' :: 'l' :: 'l' :: r => some (.atom .null, r)
  | 't' :: 'r' :: 'u' :: 'e' :: r => some (.atom (.bool true), r)
  | 'f' :: 'a' :: 'l' :: 's' :: 'e' :: r => some (.atom (.bool false), r)
  | cs => (number? cs).map fun (v, r) => (.atom v, r)

theorem length_digits? {cs ds r : List Char} (h : digits? cs = some (ds, r)) :
    r.length < cs.length := by
  unfold digits? at h
  split at h
  · simp at h
  · next hne =>
    cases h
    have hl : (cs.takeWhile isDigit ++ cs.dropWhile isDigit).length = cs.length := by
      rw [List.takeWhile_append_dropWhile]
    rw [List.length_append] at hl
    have : 0 < (cs.takeWhile isDigit).length := by
      apply List.length_pos_iff.mpr
      simpa using hne
    omega

theorem length_whole? {cs ds r : List Char} (h : whole? cs = some (ds, r)) :
    r.length < cs.length := by
  unfold whole? at h
  split at h
  · cases h
    simp
  · exact length_digits? h

theorem length_fraction? {cs ds r : List Char} (h : fraction? cs = some (ds, r)) :
    r.length ≤ cs.length := by
  unfold fraction? at h
  split at h
  · obtain ⟨⟨ds', r'⟩, hd, he⟩ := Option.map_eq_some_iff.mp h
    cases he
    have := length_digits? hd
    simp only [List.length_cons]
    omega
  · cases h
    exact Nat.le_refl _

theorem length_signedDigits? {cs ds r : List Char} (h : signedDigits? cs = some (ds, r)) :
    r.length < cs.length := by
  unfold signedDigits? at h
  split at h
  · obtain ⟨⟨ds', r'⟩, hd, he⟩ := Option.map_eq_some_iff.mp h
    cases he
    have := length_digits? hd
    simp only [List.length_cons]
    omega
  · obtain ⟨⟨ds', r'⟩, hd, he⟩ := Option.map_eq_some_iff.mp h
    cases he
    have := length_digits? hd
    simp only [List.length_cons]
    omega
  · exact length_digits? h

theorem length_exponent? {cs ds r : List Char} (h : exponent? cs = some (ds, r)) :
    r.length ≤ cs.length := by
  unfold exponent? at h
  split at h
  · obtain ⟨⟨ds', r'⟩, hd, he⟩ := Option.map_eq_some_iff.mp h
    cases he
    have := length_signedDigits? hd
    simp only [List.length_cons]
    omega
  · obtain ⟨⟨ds', r'⟩, hd, he⟩ := Option.map_eq_some_iff.mp h
    cases he
    have := length_signedDigits? hd
    simp only [List.length_cons]
    omega
  · cases h
    exact Nat.le_refl _

theorem length_magnitude? {cs r : List Char} {m : List Char × List Char}
    (h : magnitude? cs = some (m, r)) : r.length < cs.length := by
  simp only [magnitude?, Option.bind_eq_bind, Option.bind_eq_some_iff, Option.pure_def,
    Option.some.injEq] at h
  obtain ⟨⟨w, r₁⟩, hw, ⟨f, r₂⟩, hf, ⟨e, r₃⟩, he, h⟩ := h
  simp only [Prod.mk.injEq] at h
  have := length_whole? hw
  have := length_fraction? hf
  have := length_exponent? he
  rw [← h.2]
  dsimp only at *
  omega

theorem length_number? {cs r : List Char} {v : Json} (h : number? cs = some (v, r)) :
    r.length < cs.length := by
  unfold number? at h
  split at h
  · obtain ⟨⟨m, r'⟩, hm, he⟩ := Option.map_eq_some_iff.mp h
    have := length_magnitude? hm
    simp only [Prod.mk.injEq] at he
    rw [← he.2, List.length_cons]
    omega
  · obtain ⟨⟨m, r'⟩, hm, he⟩ := Option.map_eq_some_iff.mp h
    have := length_magnitude? hm
    simp only [Prod.mk.injEq] at he
    rw [← he.2]
    omega

theorem length_first? {cs r : List Char} {t : Token} (h : first? cs = some (t, r)) :
    r.length < cs.length := by
  unfold first? at h
  split at h
  case h_7 =>
    obtain ⟨⟨l, r'⟩, hl, he⟩ := Option.map_eq_some_iff.mp h
    have := Literal.length_read? hl
    simp only [Prod.mk.injEq] at he
    rw [← he.2, List.length_cons]
    omega
  case h_11 =>
    obtain ⟨⟨v, r'⟩, hv, he⟩ := Option.map_eq_some_iff.mp h
    have := length_number? hv
    simp only [Prod.mk.injEq] at he
    rw [← he.2]
    omega
  all_goals
    cases h
    simp only [List.length_cons]
    omega

def all? (cs : List Char) : Option (List Token) :=
  match _blank : cs.dropWhile isBlank with
  | [] => some []
  | c :: r =>
    match _first : first? (c :: r) with
    | none => none
    | some (t, rest) => (t :: ·) <$> all? rest
termination_by (cs.dropWhile isBlank).length
decreasing_by
  have hl := length_first? _first
  have hr := (List.dropWhile_sublist isBlank (l := rest)).length_le
  rw [← _blank] at hl
  omega

end Token
end TraceTracks.Json
