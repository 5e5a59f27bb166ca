import TraceTracks.Json

/-! String literals. The scanner turns what stands between the quotes into code points, halves of
surrogate pairs included; pairs are then put together, and a half that is left over spoils the
text. -/
namespace TraceTracks.Literal

def hexDigit? (c : Char) : Option Nat :=
  if '0' ≤ c ∧ c ≤ '9' then some (c.toNat - '0'.toNat)
  else if 'a' ≤ c ∧ c ≤ 'f' then some (c.toNat - 'a'.toNat + 10)
  else if 'A' ≤ c ∧ c ≤ 'F' then some (c.toNat - 'A'.toNat + 10)
  else none

def hex4? (a b c d : Char) : Option Nat := do
  let a ← hexDigit? a
  let b ← hexDigit? b
  let c ← hexDigit? c
  let d ← hexDigit? d
  return ((a * 16 + b) * 16 + c) * 16 + d

def escaped? : Char → Option Char
  | '"' => some '"'
  | '\\' => some '\\'
  | '/' => some '/'
  | 'b' => some '\x08'
  | 'f' => some '\x0c'
  | 'n' => some '\n'
  | 'r' => some '\r'
  | 't' => some '\t'
  | _ => none

/-- Reads up to the closing quote. Control characters have to be escaped. -/
def scan : List Char → Option (List Nat × List Char)
  | [] => none
  | '"' :: r => some ([], r)
  | '\\' :: 'u' :: a :: b :: c :: d :: r => do
    let point ← hex4? a b c d
    let (points, r) ← scan r
    return (point :: points, r)
  | '\\' :: e :: r => do
    let c ← escaped? e
    let (points, r) ← scan r
    return (c.toNat :: points, r)
  | c :: r =>
    if c.toNat < 0x20 then none
    else do
      let (points, r) ← scan r
      return (c.toNat :: points, r)

/-- The first half of a surrogate pair. -/
def isLeading (point : Nat) : Bool := 0xd800 ≤ point && point < 0xdc00

def isTrailing (point : Nat) : Bool := 0xdc00 ≤ point && point < 0xe000

def pair (leading trailing : Nat) : Nat :=
  0x10000 + (leading - 0xd800) * 0x400 + (trailing - 0xdc00)

def assemble? : List Nat → Option (List Char)
  | [] => some []
  | [p] => if isLeading p || isTrailing p then none else some [Char.ofNat p]
  | p :: q :: r =>
    if isLeading p then
      if isTrailing q then (Char.ofNat (pair p q) :: ·) <$> assemble? r else none
    else if isTrailing p then none
    else (Char.ofNat p :: ·) <$> assemble? (q :: r)

def read? (cs : List Char) : Option (Literal × List Char) :=
  (scan cs).map fun (points, r) => ((assemble? points).map String.ofList, r)

theorem length_scan {cs r : List Char} {points : List Nat} (h : scan cs = some (points, r)) :
    r.length < cs.length := by
  fun_induction scan cs generalizing points r with
  | case1 => simp at h
  | case2 => simp_all
  | case3 a b c d cs ih =>
    simp only [Option.bind_eq_bind, Option.bind_eq_some_iff, Option.pure_def,
      Option.some.injEq] at h
    obtain ⟨_, _, ⟨_, _⟩, hs, h⟩ := h
    cases h
    have := ih hs
    simp only [List.length_cons]
    omega
  | case4 e cs _ ih =>
    simp only [Option.bind_eq_bind, Option.bind_eq_some_iff, Option.pure_def,
      Option.some.injEq] at h
    obtain ⟨_, _, ⟨_, _⟩, hs, h⟩ := h
    cases h
    have := ih hs
    simp only [List.length_cons]
    omega
  | case5 => simp at h
  | case6 c cs _ _ _ _ ih =>
    simp only [Option.bind_eq_bind, Option.bind_eq_some_iff, Option.pure_def,
      Option.some.injEq] at h
    obtain ⟨⟨_, _⟩, hs, h⟩ := h
    cases h
    have := ih hs
    simp only [List.length_cons]
    omega

theorem length_read? {cs r : List Char} {l : Literal} (h : read? cs = some (l, r)) :
    r.length < cs.length := by
  obtain ⟨⟨points, r'⟩, hs, he⟩ := Option.map_eq_some_iff.mp h
  cases he
  exact length_scan hs

def hexChar (n : Nat) : Char := "0123456789abcdef".toList.getD n '0'

def writeChar (c : Char) : List Char :=
  if c = '"' then ['\\', '"']
  else if c = '\\' then ['\\', '\\']
  else if c.toNat < 0x20 then
    ['\\', 'u', '0', '0', hexChar (c.toNat / 16), hexChar (c.toNat % 16)]
  else [c]

/-- A literal with its quotes. One without a text is written as half a pair. -/
def write : Literal → List Char
  | some s => '"' :: s.toList.flatMap writeChar ++ ['"']
  | none => "\"\\ud800\"".toList

end TraceTracks.Literal
