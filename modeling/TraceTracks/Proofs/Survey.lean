import TraceTracks.Catalog

/-! What resolving a uuid is going to do, read off the announcements and the memo. A walk follows
declared parents up to the first link that cannot be followed; a survey lists the tracks that come
of it, in the order in which they are remembered, with their parents and the links that were
dropped. -/
namespace TraceTracks

inductive Cut
  | tooManyAncestors
  | loop
  | unknownParent
  | defaultLoop
  deriving DecidableEq

def Cut.anomaly : Cut → Anomaly
  | .tooManyAncestors => .tooManyAncestors
  | .loop => .loop
  | .unknownParent => .unknownParent
  | .defaultLoop => .loop

inductive Ending
  | root
  | tooManyAncestors
  | loop
  | join (parent : Uuid)
  | unknownParent
  deriving DecidableEq

namespace Ending

def joined? : Ending → Option Uuid
  | .join parent => some parent
  | _ => none

def cuts : Ending → List Cut
  | .root => []
  | .tooManyAncestors => [.tooManyAncestors]
  | .loop => [.loop]
  | .join _ => []
  | .unknownParent => [.unknownParent]

end Ending

/-- A uuid whose track is made, the uuid of the parent it gets, and the links dropped for it. -/
structure Entry where
  uuid : Uuid
  parent : Option Uuid
  cuts : List Cut
  deriving DecidableEq

structure Walk where
  chain : List Uuid
  top : Uuid
  ending : Ending
  deriving DecidableEq

namespace Catalog
variable {β : Type}

def declared (c : Catalog β) (uuid : Uuid) : Uuid := (c.reservation? uuid).elim 0 (·.parent)

theorem declared_of_reservation? {c : Catalog β} {uuid : Uuid} {r : Reservation}
    (h : c.reservation? uuid = some r) : c.declared uuid = r.parent := by
  simp [declared, h]

/-- What ends a walk at a uuid when so many more links may be followed and the uuids on a path wait
for it. The tests are made in this order. -/
def ending? (c : Catalog β) (room : Nat) (path : List Uuid) (uuid : Uuid) : Option Ending :=
  let parent := c.declared uuid
  if parent = 0 then some .root
  else if room = 0 then some .tooManyAncestors
  else if parent ∈ uuid :: path then some .loop
  else if (c.placement? parent).isSome then some (.join parent)
  else if (c.reservation? parent).isNone then some .unknownParent
  else none

theorem ending?_eq_join {c : Catalog β} {room : Nat} {path : List Uuid} {uuid parent : Uuid}
    (h : c.ending? room path uuid = some (.join parent)) :
    c.declared uuid = parent ∧ parent ≠ 0 ∧ parent ∉ uuid :: path ∧
      (c.placement? parent).isSome := by
  simp only [ending?] at h
  split at h <;> try cases h
  split at h <;> try cases h
  split at h <;> try cases h
  split at h
  · cases h
    exact ⟨rfl, ‹_›, ‹_›, ‹_›⟩
  · split at h <;> cases h

theorem ending?_eq_none {c : Catalog β} {room : Nat} {path : List Uuid} {uuid : Uuid}
    (h : c.ending? room path uuid = none) :
    c.declared uuid ≠ 0 ∧ room ≠ 0 ∧ c.declared uuid ∉ uuid :: path ∧
      c.placement? (c.declared uuid) = none ∧ (c.reservation? (c.declared uuid)).isSome := by
  simp only [ending?] at h
  split at h <;> try cases h
  split at h <;> try cases h
  split at h <;> try cases h
  split at h <;> try cases h
  split at h <;> try cases h
  simp_all [Option.isSome_iff_ne_none]

def walk (c : Catalog β) : Nat → List Uuid → Uuid → Walk
  | 0, path, uuid => ⟨[uuid], uuid, (c.ending? 0 path uuid).getD .root⟩
  | room + 1, path, uuid =>
    match c.ending? (room + 1) path uuid with
    | some ending => ⟨[uuid], uuid, ending⟩
    | none =>
      let rest := c.walk room (uuid :: path) (c.declared uuid)
      { rest with chain := uuid :: rest.chain }

def homeless (c : Catalog β) (uuid : Uuid) : Bool :=
  (c.reservation? uuid).any (·.pid.isNone) && uuid != 0

theorem homeless_iff {c : Catalog β} {uuid : Uuid} {r : Reservation}
    (h : c.reservation? uuid = some r) : c.homeless uuid ↔ r.pid = none ∧ uuid ≠ 0 := by
  simp [homeless, h]

theorem homeless_eq_false_iff {c : Catalog β} {uuid : Uuid} {r : Reservation}
    (h : c.reservation? uuid = some r) : c.homeless uuid = false ↔ r.pid.isSome ∨ uuid = 0 := by
  cases hp : r.pid <;> simp [homeless, h, hp]

end Catalog

namespace Walk
variable {β : Type}

def entriesBelow (parent : Option Uuid) (cuts : List Cut) : List Uuid → List Entry
  | [] => []
  | [top] => [⟨top, parent, cuts⟩]
  | uuid :: next :: rest => entriesBelow parent cuts (next :: rest) ++ [⟨uuid, some next, []⟩]

def isHomeless (w : Walk) (c : Catalog β) : Bool := w.ending.joined?.isNone && c.homeless w.top

/-- The entries of a walk, given whether the default track is open to a homeless top. -/
def entries (w : Walk) (c : Catalog β) (refuge : Bool) : List Entry :=
  if w.isHomeless c then
    if refuge then entriesBelow (some 0) w.ending.cuts w.chain
    else entriesBelow none (w.ending.cuts ++ [.defaultLoop]) w.chain
  else entriesBelow w.ending.joined? w.ending.cuts w.chain

theorem uuid_entriesBelow {parent : Option Uuid} {cuts : List Cut} (chain : List Uuid) :
    (entriesBelow parent cuts chain).map Entry.uuid = chain.reverse := by
  induction chain with
  | nil => rfl
  | cons uuid chain ih =>
    cases chain with
    | nil => rfl
    | cons next rest => simp [entriesBelow, ih]

theorem uuid_entries (w : Walk) (c : Catalog β) (refuge : Bool) :
    (w.entries c refuge).map Entry.uuid = w.chain.reverse := by
  unfold entries
  split
  · split <;> exact uuid_entriesBelow _
  · exact uuid_entriesBelow _

theorem entriesBelow_cons {parent : Option Uuid} {cuts : List Cut} {next : Uuid}
    {rest chain : List Uuid} (h : chain = next :: rest) (uuid : Uuid) :
    entriesBelow parent cuts (uuid :: chain) =
      entriesBelow parent cuts chain ++ [⟨uuid, some next, []⟩] := by
  subst h
  rfl

theorem entries_cons {w : Walk} {next : Uuid} {rest : List Uuid}
    (h : w.chain = next :: rest) (c : Catalog β) (refuge : Bool) (uuid : Uuid) :
    entries { w with chain := uuid :: w.chain } c refuge =
      w.entries c refuge ++ [⟨uuid, some next, []⟩] := by
  unfold entries
  change (if w.isHomeless c then _ else _) = _
  split
  · split <;> exact entriesBelow_cons h uuid
  · exact entriesBelow_cons h uuid

end Walk

namespace Catalog
variable {β : Type}

def defaultSurvey (c : Catalog β) (limit : Nat) (path : List Uuid) : List Entry :=
  if (c.placement? 0).isSome then []
  else if (c.reservation? 0).isNone then [⟨0, none, []⟩]
  else (c.walk limit path 0).entries c false

/-- The entries that come of resolving an announced uuid without a track. A homeless top asks for
the default track, with all of the walk on the path and the number of links counted afresh. -/
def survey (c : Catalog β) (limit room : Nat) (path : List Uuid) (uuid : Uuid) : List Entry :=
  let w := c.walk room path uuid
  let refuge := !(w.chain ++ path).contains 0
  (if w.isHomeless c && refuge then c.defaultSurvey limit (w.chain.reverse ++ path) else []) ++
    w.entries c refuge

def arrivals (c : Catalog β) (limit room : Nat) (path : List Uuid) (uuid : Uuid) : List Entry :=
  if (c.placement? uuid).isSome ∨ (c.reservation? uuid).isNone then []
  else c.survey limit room path uuid

section Walk
variable {c : Catalog β} {limit room : Nat} {path : List Uuid} {uuid : Uuid}

theorem walk_of_ending? {ending : Ending} (h : c.ending? room path uuid = some ending) :
    c.walk room path uuid = ⟨[uuid], uuid, ending⟩ := by
  cases room with
  | zero => simp only [walk, h, Option.getD_some]
  | succ room => simp only [walk, h]

theorem walk_of_open (h : c.ending? room path uuid = none) :
    c.walk room path uuid =
      { c.walk (room - 1) (uuid :: path) (c.declared uuid) with
        chain := uuid :: (c.walk (room - 1) (uuid :: path) (c.declared uuid)).chain } := by
  cases room with
  | zero => exact absurd rfl (ending?_eq_none h).2.1
  | succ room => simp only [walk, h, Nat.add_sub_cancel]

theorem chain_walk (c : Catalog β) (room : Nat) (path : List Uuid) (uuid : Uuid) :
    ∃ rest, (c.walk room path uuid).chain = uuid :: rest := by
  cases h : c.ending? room path uuid with
  | none => exact ⟨_, by rw [walk_of_open h]⟩
  | some ending => exact ⟨[], by rw [walk_of_ending? h]⟩

theorem not_mem_path_of_mem_chain (hu : uuid ∉ path) {v : Uuid}
    (hv : v ∈ (c.walk room path uuid).chain) : v ∉ path := by
  induction room generalizing path uuid with
  | zero =>
    simp only [walk, List.mem_singleton] at hv
    exact hv ▸ hu
  | succ room ih =>
    cases h : c.ending? (room + 1) path uuid with
    | some ending =>
      rw [walk_of_ending? h, List.mem_singleton] at hv
      exact hv ▸ hu
    | none =>
      rw [walk_of_open h, List.mem_cons] at hv
      rcases hv with rfl | hv
      · exact hu
      · exact fun hm => ih (ending?_eq_none h).2.2.1 hv (List.mem_cons_of_mem _ hm)

theorem survey_of_open (limit : Nat) (h : c.ending? room path uuid = none) :
    c.survey limit room path uuid =
      c.survey limit (room - 1) (uuid :: path) (c.declared uuid) ++
        [⟨uuid, some (c.declared uuid), []⟩] := by
  obtain ⟨rest, hrest⟩ := c.chain_walk (room - 1) (uuid :: path) (c.declared uuid)
  have refuge (chain : List Uuid) : (uuid :: chain ++ path).contains 0 =
      (chain ++ uuid :: path).contains 0 := by
    rw [Bool.eq_iff_iff]
    simp [or_left_comm]
  simp only [survey, walk_of_open h, Walk.entries_cons hrest, refuge, List.append_assoc]
  simp [Walk.isHomeless]

theorem survey_of_join (limit : Nat) {parent : Uuid}
    (h : c.ending? room path uuid = some (.join parent)) :
    c.survey limit room path uuid = [⟨uuid, some parent, []⟩] := by
  simp [survey, walk_of_ending? h, Walk.isHomeless, Walk.entries, Walk.entriesBelow,
    Ending.joined?, Ending.cuts]

variable {ending : Ending}

theorem survey_of_housed (limit : Nat) (h : c.ending? room path uuid = some ending)
    (apart : ending.joined? = none) (housed : c.homeless uuid = false) :
    c.survey limit room path uuid = [⟨uuid, none, ending.cuts⟩] := by
  simp [survey, walk_of_ending? h, Walk.isHomeless, Walk.entries, Walk.entriesBelow, apart, housed]

theorem survey_of_barred (limit : Nat) (h : c.ending? room path uuid = some ending)
    (apart : ending.joined? = none) (homeless : c.homeless uuid = true) (waits : 0 ∈ path) :
    c.survey limit room path uuid = [⟨uuid, none, ending.cuts ++ [.defaultLoop]⟩] := by
  simp [survey, walk_of_ending? h, Walk.isHomeless, Walk.entries, Walk.entriesBelow, apart,
    homeless, waits]

theorem survey_of_sheltered (limit : Nat) (h : c.ending? room path uuid = some ending)
    (apart : ending.joined? = none) (homeless : c.homeless uuid = true) (free : 0 ∉ path) :
    c.survey limit room path uuid =
      c.defaultSurvey limit (uuid :: path) ++ [⟨uuid, some 0, ending.cuts⟩] := by
  have nonzero : 0 ≠ uuid := by
    rintro rfl
    simp [Catalog.homeless] at homeless
  simp [survey, walk_of_ending? h, Walk.isHomeless, Walk.entries, Walk.entriesBelow, apart,
    homeless, free, nonzero]

theorem survey_zero (absent : c.placement? 0 = none) (reserved : (c.reservation? 0).isSome) :
    c.survey limit limit path 0 = c.defaultSurvey limit path := by
  obtain ⟨rest, hrest⟩ := c.chain_walk limit path 0
  obtain ⟨r, hr⟩ := Option.isSome_iff_exists.mp reserved
  simp [survey, defaultSurvey, hrest, absent, hr]

theorem arrivals_of_absent (limit room : Nat) (path : List Uuid)
    (absent : c.placement? uuid = none) (reserved : (c.reservation? uuid).isSome) :
    c.arrivals limit room path uuid = c.survey limit room path uuid := by
  unfold arrivals
  rw [if_neg]
  simp [absent, Option.isSome_iff_ne_none.mp reserved]

theorem defaultSurvey_of_reserved (reserved : (c.reservation? 0).isSome) :
    c.defaultSurvey limit path = c.arrivals limit limit path 0 := by
  cases placed : c.placement? 0 with
  | some p => simp [arrivals, defaultSurvey, placed]
  | none => rw [arrivals_of_absent limit limit path placed reserved, survey_zero placed reserved]

theorem not_mem_path_of_mem_defaultSurvey (free : 0 ∉ path) {e : Entry}
    (he : e ∈ c.defaultSurvey limit path) : e.uuid ∉ path := by
  unfold defaultSurvey at he
  split at he
  · cases he
  split at he
  · rw [List.mem_singleton] at he
    rw [he]
    exact free
  · have hmem := List.mem_map_of_mem (f := Entry.uuid) he
    rw [Walk.uuid_entries, List.mem_reverse] at hmem
    exact not_mem_path_of_mem_chain free hmem

theorem not_mem_path_of_mem_survey (hu : uuid ∉ path) {e : Entry}
    (he : e ∈ c.survey limit room path uuid) : e.uuid ∉ path := by
  unfold survey at he
  dsimp only at he
  rcases List.mem_append.mp he with he | he
  · split at he
    next hc =>
      have free : 0 ∉ (c.walk room path uuid).chain.reverse ++ path := by
        simp only [Bool.and_eq_true, Bool.not_eq_true', List.contains_eq_mem,
          decide_eq_false_iff_not] at hc
        simpa using hc.2
      have hnot := not_mem_path_of_mem_defaultSurvey free he
      exact fun hm => hnot (List.mem_append_right _ hm)
    next => cases he
  · have hmem := List.mem_map_of_mem (f := Entry.uuid) he
    rw [Walk.uuid_entries, List.mem_reverse] at hmem
    exact not_mem_path_of_mem_chain hu hmem

theorem not_mem_path_of_mem_arrivals (hu : uuid ∉ path) {e : Entry}
    (he : e ∈ c.arrivals limit room path uuid) : e.uuid ∉ path := by
  unfold arrivals at he
  split at he
  · cases he
  · exact not_mem_path_of_mem_survey hu he

/-- Nothing but announcements and the memo is looked at. -/
theorem survey_congr {c' : Catalog β} (hr : c'.reservations = c.reservations)
    (hp : c'.placements = c.placements) :
    c'.survey = c.survey ∧ c'.defaultSurvey = c.defaultSurvey := by
  have hr : c'.reservation? = c.reservation? := by
    funext uuid
    simp only [reservation?, hr]
  have hp : c'.placement? = c.placement? := by
    funext uuid
    simp only [placement?, hp]
  have hd : c'.declared = c.declared := by
    funext uuid
    simp only [declared, hr]
  have he : c'.ending? = c.ending? := by
    funext room path uuid
    simp only [ending?, hr, hp, hd]
  have hw : c'.walk = c.walk := by
    funext room
    induction room with
    | zero =>
      funext path uuid
      simp only [walk, he]
    | succ room ih =>
      funext path uuid
      simp only [walk, he, ih, hd]
  have hh : c'.homeless = c.homeless := by
    funext uuid
    simp only [homeless, hr]
  have hn (w : Walk) : w.isHomeless c' = w.isHomeless c := by
    simp only [Walk.isHomeless, hh]
  have hl (w : Walk) : w.entries c' = w.entries c := by
    funext refuge
    simp only [Walk.entries, hn]
  have hs : c'.defaultSurvey = c.defaultSurvey := by
    funext limit path
    simp only [defaultSurvey, hr, hp, hw, hl]
  refine ⟨?_, hs⟩
  funext limit room path uuid
  simp only [survey, hs, hw, hn, hl]

end Walk
end Catalog
end TraceTracks
