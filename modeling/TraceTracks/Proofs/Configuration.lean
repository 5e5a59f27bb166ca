import TraceTracks.Proofs.RoundTrip
import TraceTracks.Settings.Document

/-! Settings and their texts. Whatever object tells settings is read as these, be it written here or
elsewhere; and what is read has passed the check. -/
namespace TraceTracks.Settings

/-- What members of an object say under a name: one value, or nothing. -/
def Tells (members : List (String × Json)) (name : String) (value : Option Json) : Prop :=
  (members.filter (·.1 = name)).map Prod.snd = value.toList

theorem Tells.field? {members : List (String × Json)} {name : String} {value : Option Json}
    (tells : Tells members name value) :
    Json.field? (members.map fun m => (some m.1, m.2)) name = some value := by
  have named : (members.map fun m => ((some m.1 : Literal), m.2)).filter (·.1 == some name) =
      (members.filter (·.1 = name)).map fun m => (some m.1, m.2) := by
    rw [List.filter_map]
    congr 1
  rw [Json.field?, named]
  unfold Tells at tells
  cases value with
  | none =>
    rw [Option.toList_none, List.map_eq_nil_iff] at tells
    rw [tells]
    rfl
  | some value =>
    rw [Option.toList_some, List.map_eq_singleton_iff] at tells
    obtain ⟨m, alone, rfl⟩ := tells
    rw [alone]
    rfl

variable {bound : Option Nat} {name : Option String} {members : List (String × Json)}

/-- Settings are found among any members; what is left out has its default. -/
theorem ofJson?_record (fits : ∀ n, bound = some n → n < UInt64.size)
    (bounds : Tells members "max_ancestors" (bound.map Json.nat))
    (names : Tells members "default_track_name" (name.map Json.text)) :
    ofJson? (Json.record members) = some ⟨bound.getD 10, name.getD "Default Track"⟩ := by
  have texts : (members.map fun m => ((some m.1 : Literal), m.2)).all (·.1.isSome) = true := by
    simp
  have fields : (Json.record members).fields? ["max_ancestors", "default_track_name"] =
      some [bound.map Json.nat, name.map Json.text] := by
    rw [Json.record, Json.fields?, if_pos texts, List.mapM_cons, bounds.field?, List.mapM_cons,
      names.field?]
    rfl
  have bounded : setting? (Json.natBelow? UInt64.size) default.maxAncestors (bound.map Json.nat) =
      some (bound.getD 10) := by
    cases bound with
    | none => rfl
    | some n => exact if_pos (fits n rfl)
  have named : setting? Json.text? default.defaultTrackName (name.map Json.text) =
      some (name.getD "Default Track") := by
    cases name with
    | none => rfl
    | some text => rfl
  rw [ofJson?, fields]
  dsimp only [Option.bind_eq_bind, Option.bind_some]
  rw [bounded, named]
  rfl

structure Judged (c : Settings) (answer : Except SettingsFault Settings) : Prop where
  valid : c.Valid → answer = .ok c
  unbounded : c.maxAncestors = 0 → answer.mapError SettingsFault.toFault =
    .error (.invalidConfig "max_ancestors must be at least 1")
  unnamed : 1 ≤ c.maxAncestors → c.defaultTrackName = "" →
    answer.mapError SettingsFault.toFault =
      .error (.invalidConfig "default_track_name must not be empty")
  checked : ∀ fault, c.check = .error fault → answer = .error fault

theorem judged_check (c : Settings) : Judged c (c.check.map fun _ => c) := by
  constructor
  case valid =>
    intro valid
    rw [check_eq_ok_iff.mpr valid]
    rfl
  case unbounded =>
    intro zero
    rw [check, if_pos zero]
    rfl
  case unnamed =>
    intro positive empty
    rw [check, if_neg (Nat.ne_of_gt positive), if_pos empty]
    rfl
  case checked =>
    intro fault found
    rw [found]
    rfl

theorem judged_read {c : Settings} {j : Json} {text : String} (spells : j.Spells text)
    (decodes : ofJson? j = some c) : Judged c (read text) := by
  rw [read, spells.read?, Option.bind_some, decodes]
  exact judged_check c

theorem numeric_toJson (c : Settings) : Json.Numeric c.toJson.tokens := by
  intro numeral mem
  simp [toJson, Json.record, Json.tokens, Json.moreMembers, Json.nat, Json.text] at mem

/-- Settings are read back from what is written of them, and from any other spelling of an object
that tells them, among whatever other members; what it leaves out has its default. Nothing else
than valid settings is ever read. -/
theorem reading_undoes_writing :
    (∀ c : Settings, c.maxAncestors < UInt64.size → Judged c (read c.toJson.toText)) ∧
    (∀ (bound : Option Nat) (name : Option String) (members : List (String × Json)) (text : String),
      (∀ n, bound = some n → n < UInt64.size) →
      Tells members "max_ancestors" (bound.map Json.nat) →
      Tells members "default_track_name" (name.map Json.text) →
      (Json.record members).Spells text →
      Judged ⟨bound.getD 10, name.getD "Default Track"⟩ (read text)) ∧
    ∀ text c, read text = .ok c → 1 ≤ c.maxAncestors ∧ c.defaultTrackName ≠ "" := by
  refine ⟨fun c fits => ?_, fun bound name members text fits bounds names spells => ?_,
    fun text c accepted => valid_of_read accepted⟩
  · exact judged_read (Json.spells_toText (numeric_toJson c)) (ofJson?_toJson fits)
  · exact judged_read spells (ofJson?_record fits bounds names)

def garnished : List (String × Json) :=
  [("x", .arr [.str none]), ("default_track_name", .text "😀\""), ("max_ancestors", .nat 7)]

def garnishedText : String :=
  "\x7b \"x\":[\"\\uDBff\"],\n\t\"default_track_name\":" ++
    "\"\\ud83D\\uDE00\\\"\" ,\"max_ancestors\":7\x7d\r\n"

section Garnished
open Json Token Literal

theorem spells_half : Literal.Spells none ['"', '\\', 'u', 'D', 'B', 'f', 'f', '"'] := by
  have digits : HexDigit 13 'D' ∧ HexDigit 11 'B' ∧ HexDigit 15 'f' :=
    ⟨.inr rfl, .inr rfl, .inl rfl⟩
  have half : SpellsPoints [0xdbff] ['\\', 'u', 'D', 'B', 'f', 'f'] :=
    .cons (.hex digits.1 digits.2.1 digits.2.2 digits.2.2) .nil
  refine .broken (fun text encodes => ?_) half
  cases encodes.assemble?

theorem spells_face : Literal.Spells (some "😀\"")
    ['"', '\\', 'u', 'd', '8', '3', 'D', '\\', 'u', 'D', 'E', '0', '0', '\\', '"', '"'] := by
  have high : SpellsPoint 0xd83d ['\\', 'u', 'd', '8', '3', 'D'] := by
    have digits : HexDigit 13 'd' ∧ HexDigit 8 '8' ∧ HexDigit 3 '3' ∧ HexDigit 13 'D' :=
      ⟨.inl rfl, .inl rfl, .inl rfl, .inr rfl⟩
    exact .hex digits.1 digits.2.1 digits.2.2.1 digits.2.2.2
  have low : SpellsPoint 0xde00 ['\\', 'u', 'D', 'E', '0', '0'] := by
    have digits : HexDigit 13 'D' ∧ HexDigit 14 'E' ∧ HexDigit 0 '0' :=
      ⟨.inr rfl, .inr rfl, .inl rfl⟩
    exact .hex digits.1 digits.2.1 digits.2.2 digits.2.2
  have quote : SpellsPoint '"'.toNat ['\\', '"'] := .short (by decide)
  have encodes : Encodes "😀\"".toList [0xd83d, 0xde00, '"'.toNat] :=
    .split '😀' (by decide) (.whole '"' .nil)
  exact .text encodes (.cons high (.cons low (.cons quote .nil)))

theorem spells_garnished : (Json.record garnished).Spells garnishedText := by
  have seven : SpellsNumber (.nat 7) ['7'] := .natural (Numeral.whole_repr 7)
  have name (s : String) : (Token.str (some s)).Spells (Literal.write (some s)) :=
    .str (Literal.spells_write (some s))
  have space : Blank [' '] := by simp [Blank]
  have newline : Blank ['\n', '\t'] := by simp [Blank]
  have ending : Blank ['\r', '\n'] := by simp [Blank]
  have bound := spellsAll_cons (name "max_ancestors") <| spellsAll_cons .colon <|
    spellsAll_cons (.number seven) <| spellsAll_cons .closeObj <| .nil ending
  have track := SpellsAll.cons newline (name "default_track_name") <| spellsAll_cons .colon <|
    spellsAll_cons (.str spells_face) <| .cons space .comma bound
  have halves := SpellsAll.cons space (name "x") <| spellsAll_cons .colon <|
    spellsAll_cons .openArr <| spellsAll_cons (.str spells_half) <|
    spellsAll_cons .closeArr <| spellsAll_cons .comma track
  exact spellsAll_cons .openObj halves

end Garnished

theorem reading_undoes_writing_garnished :
    read garnishedText = .ok ⟨7, "😀\""⟩ ∧ read (toJson ⟨7, "😀\""⟩).toText = .ok ⟨7, "😀\""⟩ ∧
      (read (toJson ⟨0, ""⟩).toText).mapError SettingsFault.toFault =
        .error (.invalidConfig "max_ancestors must be at least 1") := by
  obtain ⟨written, told, -⟩ := reading_undoes_writing
  have bounds : Tells garnished "max_ancestors" ((some 7).map Json.nat) := rfl
  have names : Tells garnished "default_track_name" ((some "😀\"").map Json.text) := rfl
  have valid : Valid ⟨7, "😀\""⟩ := ⟨by decide, by decide⟩
  have fits : ∀ n, some 7 = some n → n < UInt64.size := by
    rintro _ ⟨⟩
    decide
  refine ⟨?_, (written ⟨7, "😀\""⟩ (by decide)).valid valid,
    (written ⟨0, ""⟩ (by decide)).unbounded rfl⟩
  exact (told (some 7) (some "😀\"") garnished garnishedText fits bounds names
    spells_garnished).valid valid

end TraceTracks.Settings
