import TraceTracks.Proofs.Resolution

/-! The guards of a path. Any series of entries and drops is one stack of open guards, and what each
of them saved is the path as it was when it was opened. So the path can be read off the open guards,
and dropping guards, one or many, leads back to where it was. -/
namespace TraceTracks
namespace Descent

inductive Move
  | enter (uuid : Uuid)
  | enterRoot (uuid : Uuid)
  | leave
  deriving DecidableEq

def move? (d : Descent) : Move → Option Descent
  | .enter uuid => some (d.enter uuid)
  | .enterRoot uuid => some (d.enterRoot uuid)
  | .leave => d.leave?

/-- What moves, latest first, make of the empty path. -/
def after? : List Move → Option Descent
  | [] => some start
  | move :: earlier => (after? earlier).bind (·.move? move)

def leaves? (d : Descent) : Nat → Option Descent
  | 0 => some d
  | n + 1 => d.leave?.bind (·.leaves? n)

structure Opening where
  uuid : Uuid
  isRoot : Bool
  before : List Move
  deriving DecidableEq

def openings : List Move → List Opening
  | [] => []
  | .enter uuid :: earlier => ⟨uuid, false, earlier⟩ :: openings earlier
  | .enterRoot uuid :: earlier => ⟨uuid, true, earlier⟩ :: openings earlier
  | .leave :: earlier => (openings earlier).tail

def Nested : List Move → Prop
  | [] => True
  | .leave :: earlier => openings earlier ≠ [] ∧ Nested earlier
  | _ :: earlier => Nested earlier

theorem Nested.earlier {move : Move} {history : List Move} (nested : Nested (move :: history)) :
    Nested history := by
  cases move with
  | enter uuid => exact nested
  | enterRoot uuid => exact nested
  | leave => exact nested.2

theorem Nested.of_suffix {moment history : List Move} (nested : Nested history)
    (suffix : moment <:+ history) : Nested moment := by
  induction history with
  | nil => exact List.suffix_nil.mp suffix ▸ nested
  | cons move history ih =>
    obtain rfl | suffix := List.suffix_cons_iff.mp suffix
    · exact nested
    · exact ih nested.earlier suffix

/-- The open guards, innermost first, each entered on the path that there was then. -/
inductive Holds : Descent → List Opening → Prop
  | start : Holds start []
  | enter {d : Descent} {os : List Opening} {before : List Move} (holds : Holds d os)
      (reached : after? before = some d) (uuid : Uuid) :
      Holds (d.enter uuid) (⟨uuid, false, before⟩ :: os)
  | enterRoot {d : Descent} {os : List Opening} {before : List Move} (holds : Holds d os)
      (reached : after? before = some d) (uuid : Uuid) :
      Holds (d.enterRoot uuid) (⟨uuid, true, before⟩ :: os)

namespace Holds
variable {d : Descent} {o : Opening} {os : List Opening}

theorem leave? (holds : Holds d (o :: os)) :
    ∃ back, after? o.before = some back ∧ d.leave? = some back ∧ Holds back os := by
  cases holds with
  | enter holds reached uuid => exact ⟨_, reached, leave?_enter _ uuid, holds⟩
  | enterRoot holds reached uuid => exact ⟨_, reached, leave?_enterRoot _ uuid, holds⟩

theorem above (holds : Holds d os) : d.path.above = os.map Opening.uuid := by
  induction holds with
  | start => rfl
  | @enter d os before holds reached uuid ih =>
    rw [List.map_cons, ← ih]
    exact Trail.above_enter d.path uuid
  | @enterRoot d os before holds reached uuid ih =>
    rw [List.map_cons, ← ih]
    exact Trail.above_enterRoot d.path uuid

theorem level (holds : Holds d os) : d.path.Level := by
  induction holds with
  | start => exact Trail.level_empty
  | enter holds reached uuid ih => exact ih.enter uuid
  | @enterRoot d os before holds reached uuid ih => exact Trail.level_enterRoot d.path uuid

theorem depth (holds : Holds d os) :
    d.path.depth = (os.takeWhile (!·.isRoot)).length := by
  induction holds with
  | start => rfl
  | @enter d os before holds reached uuid ih =>
    have deeper : (d.path.enter uuid).depth = d.path.depth + 1 := holds.level.depth_enter uuid
    rw [List.takeWhile_cons_of_pos rfl, List.length_cons, ← ih]
    exact deeper
  | @enterRoot d os before holds reached uuid ih => exact Trail.depth_enterRoot d.path uuid

theorem leaves? (holds : Holds d os) (k : Nat) (here : os[k]? = some o) :
    ∃ back, after? o.before = some back ∧ d.leaves? (k + 1) = some back := by
  induction k generalizing d os with
  | zero =>
    obtain ⟨rest, rfl⟩ : ∃ rest, os = o :: rest := by
      cases os with
      | nil => cases here
      | cons first rest => exact ⟨rest, by rw [Option.some.inj here]⟩
    obtain ⟨back, reached, left, -⟩ := holds.leave?
    exact ⟨back, reached, by rw [Descent.leaves?, left]; rfl⟩
  | succ k ih =>
    cases os with
    | nil => cases here
    | cons first rest =>
      obtain ⟨back, -, left, holds⟩ := holds.leave?
      obtain ⟨final, reached, unwound⟩ := ih holds here
      exact ⟨final, reached, by rw [Descent.leaves?, left]; exact unwound⟩

end Holds

/-- Each move is made, and keeps the stack of open guards. -/
theorem Nested.holds {history : List Move} (nested : Nested history) :
    ∃ d, after? history = some d ∧ Holds d (openings history) := by
  induction history with
  | nil => exact ⟨start, rfl, .start⟩
  | cons move earlier ih =>
    obtain ⟨d, reached, holds⟩ := ih nested.earlier
    rw [after?, reached, Option.bind_some]
    cases move with
    | enter uuid => exact ⟨d.enter uuid, rfl, holds.enter reached uuid⟩
    | enterRoot uuid => exact ⟨d.enterRoot uuid, rfl, holds.enterRoot reached uuid⟩
    | leave =>
      obtain ⟨o, os, opened⟩ := List.exists_cons_of_ne_nil nested.1
      rw [opened] at holds
      obtain ⟨back, -, left, holds⟩ := holds.leave?
      refine ⟨back, left, ?_⟩
      rw [openings, opened]
      exact holds

/-- At every moment of a nested series of moves, the open guards say what the path is, and dropping
any number of them puts back the path, with its floor and its guards, that there was when the last
of these was opened. -/
theorem guards_keep_path (history moment : List Move) (nested : Nested history)
    (suffix : moment <:+ history) :
    ∃ d, after? moment = some d ∧
      d.path.uuids.toList = ((openings moment).map Opening.uuid).reverse ∧
      (∀ uuid, d.path.contains uuid = true ↔ ∃ o ∈ openings moment, o.uuid = uuid) ∧
      d.path.floor ≤ d.path.uuids.size ∧
      d.path.depth = ((openings moment).takeWhile (!·.isRoot)).length ∧
      ∀ k o, (openings moment)[k]? = some o →
        ∃ back, after? o.before = some back ∧ d.leaves? (k + 1) = some back := by
  obtain ⟨d, reached, holds⟩ := (nested.of_suffix suffix).holds
  refine ⟨d, reached, ?_, fun uuid => ?_, holds.level, holds.depth, fun k o => holds.leaves? k⟩
  · rw [← holds.above, Trail.above, List.reverse_reverse]
  · rw [Trail.contains_iff_mem_above, holds.above, List.mem_map]

def rerooted : List Move :=
  [.leave, .enter 7, .enter 7, .enterRoot 0, .leave, .enter 3, .enterRoot 7, .enter 7]

theorem guards_keep_path_rerooted :
    Nested rerooted ∧ ∃ d, after? rerooted = some d ∧ d.path.uuids.toList = [7, 7, 0, 7] ∧
      d.path.contains 3 = false ∧ d.path.depth = 1 ∧
      ∃ back, d.leaves? 2 = some back ∧ back.path = ⟨#[7, 7], 2⟩ := by
  have nested : Nested rerooted := by simp [rerooted, Nested, openings]
  obtain ⟨d, reached, uuids, contains, -, depth, restores⟩ :=
    guards_keep_path rerooted rerooted nested List.suffix_rfl
  obtain ⟨back, before, left⟩ := restores 1 ⟨0, true, rerooted.drop 4⟩ rfl
  refine ⟨nested, d, reached, uuids, ?_, depth, back, left, ?_⟩
  · rw [Bool.eq_false_iff, Ne, contains]
    decide
  · exact congrArg Descent.path (Option.some.inj before).symm

end Descent
end TraceTracks
