import Mathlib.Logic.Basic
import TraceTracks.Proofs.Hierarchy

/-! Looking a track up comes to the same as walking up its declared parents: the walk stops at the
first uuid whose link fails a test, and the tracks of all uuids on it are made from the top down. -/
namespace TraceTracks
namespace Catalog
variable {β : Type}

def link (c : Catalog β) (u : Uuid) : Nat → Uuid
  | 0 => u
  | k + 1 => c.declared (c.link u k)

def chain (c : Catalog β) (u : Uuid) (k : Nat) : List Uuid := (List.range (k + 1)).map (c.link u)

/-- Why a walk cannot go on after this many steps up, if it cannot. -/
def stop? (c : Catalog β) (limit : Nat) (path : List Uuid) (u : Uuid) (k : Nat) : Option Ending :=
  let parent := c.declared (c.link u k)
  if parent = 0 then some .root
  else if limit < k + 1 then some .tooManyAncestors
  else if parent ∈ c.chain u k ++ path then some .loop
  else if (c.placement? parent).isSome then some (.join parent)
  else if (c.reservation? parent).isNone then some .unknownParent
  else none

structure Stops (c : Catalog β) (limit : Nat) (path : List Uuid) (u : Uuid) (k : Nat)
    (ending : Ending) : Prop where
  here : c.stop? limit path u k = some ending
  first : ∀ j < k, c.stop? limit path u j = none

def Sheltered (c : Catalog β) (u : Uuid) (k : Nat) (ending : Ending) : Prop :=
  ending.joined? = none ∧ c.homeless (c.link u k) ∧ 0 ∉ c.chain u k

instance (c : Catalog β) (u : Uuid) (k : Nat) (ending : Ending) :
    Decidable (c.Sheltered u k ending) := inferInstanceAs (Decidable (_ ∧ _ ∧ _))

def topParent? (c : Catalog β) (u : Uuid) (k : Nat) (ending : Ending) : Option Uuid :=
  if c.Sheltered u k ending then some 0 else ending.joined?

/-- The links dropped on a walk. A top that goes below the default track closes a loop if the
default track is on its own chain. -/
def dropped (c : Catalog β) (u : Uuid) (k : Nat) (ending : Ending) : List Cut :=
  ending.cuts ++ if ending.joined? = none ∧ c.homeless (c.link u k) ∧ 0 ∈ c.chain u k
    then [.defaultLoop] else []

section Walk
variable {c : Catalog β} {limit : Nat} {path : List Uuid} {u : Uuid} {k : Nat} {ending : Ending}

theorem link_declared (c : Catalog β) (u : Uuid) (k : Nat) :
    c.link (c.declared u) k = c.link u (k + 1) := by
  induction k with
  | zero => rfl
  | succ k ih => exact congrArg c.declared ih

theorem chain_succ (c : Catalog β) (u : Uuid) (k : Nat) :
    c.chain u (k + 1) = u :: c.chain (c.declared u) k := by
  unfold chain
  rw [List.range_succ_eq_map, List.map_cons, List.map_map]
  refine congrArg (u :: ·) (List.map_congr_left fun j _ => ?_)
  exact (link_declared c u j).symm

theorem mem_chain {v : Uuid} : v ∈ c.chain u k ↔ ∃ i ≤ k, c.link u i = v := by
  simp only [chain, List.mem_map, List.mem_range, Nat.lt_succ_iff]

theorem mem_chain_self (c : Catalog β) (u : Uuid) (k : Nat) : u ∈ c.chain u k :=
  mem_chain.mpr ⟨0, Nat.zero_le k, rfl⟩

theorem stop?_zero (c : Catalog β) (limit : Nat) (path : List Uuid) (u : Uuid) :
    c.stop? limit path u 0 = c.ending? limit path u :=
  if_congr Iff.rfl rfl (if_congr (by omega) rfl rfl)

theorem stop?_succ (c : Catalog β) (limit : Nat) (path : List Uuid) (u : Uuid) (k : Nat) :
    c.stop? (limit + 1) path u (k + 1) = c.stop? limit (u :: path) (c.declared u) k := by
  have loop (v : Uuid) : v ∈ c.chain u (k + 1) ++ path ↔
      v ∈ c.chain (c.declared u) k ++ u :: path := by
    simp only [chain_succ, List.cons_append, List.mem_cons, List.mem_append]
    exact or_left_comm
  unfold stop?
  rw [link_declared]
  exact if_congr Iff.rfl rfl (if_congr (by omega) rfl (if_congr (loop _) rfl rfl))

theorem stop?_congr {path' : List Uuid} (same : ∀ v, v ∈ path' ↔ v ∈ path) :
    c.stop? limit path' u = c.stop? limit path u := by
  funext k
  have loop (v : Uuid) : v ∈ c.chain u k ++ path' ↔ v ∈ c.chain u k ++ path := by
    rw [List.mem_append, List.mem_append, same]
  exact if_congr Iff.rfl rfl (if_congr Iff.rfl rfl (if_congr (loop _) rfl rfl))

/-- A walk stops where the first test fails, and it lists the uuids up to there. -/
theorem stops_walk (c : Catalog β) (limit : Nat) (path : List Uuid) (u : Uuid) :
    ∃ k, c.Stops limit path u k (c.walk limit path u).ending ∧
      (c.walk limit path u).chain = c.chain u k ∧ (c.walk limit path u).top = c.link u k := by
  induction limit generalizing path u with
  | zero =>
    refine ⟨0, ⟨?_, fun j hj => absurd hj (Nat.not_lt_zero j)⟩, rfl, rfl⟩
    rw [stop?_zero]
    simp only [walk, ending?]
    split <;> simp
  | succ limit ih =>
    cases h : c.ending? (limit + 1) path u with
    | some ending =>
      rw [walk_of_ending? h]
      exact ⟨0, ⟨(stop?_zero ..).trans h, fun j hj => absurd hj (Nat.not_lt_zero j)⟩, rfl, rfl⟩
    | none =>
      obtain ⟨k, stops, chain, top⟩ := ih (u :: path) (c.declared u)
      rw [walk_of_open h, Nat.add_sub_cancel]
      refine ⟨k + 1, ⟨(stop?_succ ..).trans stops.here, ?_⟩, ?_, ?_⟩
      · intro j hj
        cases j with
        | zero => exact (stop?_zero ..).trans h
        | succ j => exact (stop?_succ ..).trans (stops.first j (by omega))
      · rw [chain_succ]
        exact congrArg (u :: ·) chain
      · rw [← link_declared]
        exact top

end Walk

section Entries
variable {c : Catalog β} {limit : Nat} {path : List Uuid} {u : Uuid} {k : Nat} {ending : Ending}

structure Listed (c : Catalog β) (u : Uuid) (k : Nat) (parent : Option Uuid) (dropped : List Cut)
    (entries : List Entry) : Prop where
  uuids : entries.map Entry.uuid = (c.chain u k).reverse
  inner : ∀ j < k, ⟨c.link u j, some (c.link u (j + 1)), []⟩ ∈ entries
  top : ⟨c.link u k, parent, dropped⟩ ∈ entries
  only : ∀ e ∈ entries, (∃ j < k, e = ⟨c.link u j, some (c.link u (j + 1)), []⟩) ∨
    e = ⟨c.link u k, parent, dropped⟩
  cuts : cutsOf entries = dropped

theorem Listed.cons {top : Option Uuid} {cuts : List Cut} {entries : List Entry}
    (h : c.Listed (c.declared u) k top cuts entries) :
    c.Listed u (k + 1) top cuts (entries ++ [⟨u, some (c.declared u), []⟩]) where
  uuids := by
    rw [List.map_append, h.uuids, chain_succ, List.reverse_cons]
    rfl
  inner j hj := by
    cases j with
    | zero => exact List.mem_append_right _ List.mem_cons_self
    | succ j =>
      have above := h.inner j (by omega)
      rw [link_declared, link_declared] at above
      exact List.mem_append_left _ above
  top := by
    rw [← link_declared]
    exact List.mem_append_left _ h.top
  only e he := by
    rcases List.mem_append.mp he with he | he
    · rcases h.only e he with ⟨j, hj, rfl⟩ | rfl
      · exact .inl ⟨j + 1, by omega, by rw [link_declared, link_declared]⟩
      · exact .inr (by rw [link_declared])
    · exact .inl ⟨0, Nat.succ_pos k, List.mem_singleton.mp he⟩
  cuts := by
    rw [cutsOf_append, h.cuts, cutsOf_singleton, List.append_nil]

theorem listed_entriesBelow (c : Catalog β) (u : Uuid) (k : Nat) (top : Option Uuid)
    (cuts : List Cut) : c.Listed u k top cuts (Walk.entriesBelow top cuts (c.chain u k)) := by
  induction k generalizing u with
  | zero =>
    exact ⟨rfl, fun j hj => absurd hj (Nat.not_lt_zero j), List.mem_cons_self,
      fun e he => .inr (List.mem_singleton.mp he),
      List.append_nil _⟩
  | succ k ih =>
    have hchain : ∃ rest, c.chain (c.declared u) k = c.declared u :: rest := by
      cases k with
      | zero => exact ⟨[], rfl⟩
      | succ k => exact ⟨_, chain_succ ..⟩
    obtain ⟨rest, hrest⟩ := hchain
    rw [chain_succ, Walk.entriesBelow_cons hrest]
    exact (ih (c.declared u)).cons

theorem listed_entries {w : Walk} (chain : w.chain = c.chain u k) (top : w.top = c.link u k) :
    c.Listed u k (c.topParent? u k w.ending) (c.dropped u k w.ending)
      (w.entries c !(c.chain u k).contains 0) := by
  have stray : w.isHomeless c = true ↔ w.ending.joined? = none ∧ c.homeless (c.link u k) := by
    simp [Walk.isHomeless, top]
  have waits : (!(c.chain u k).contains 0) = true ↔ 0 ∉ c.chain u k := by simp
  unfold Walk.entries topParent? dropped
  rw [chain]
  by_cases hs : w.isHomeless c = true
  · obtain ⟨apart, homeless⟩ := stray.mp hs
    rw [if_pos hs]
    by_cases h0 : 0 ∈ c.chain u k
    · have housed : ¬c.Sheltered u k w.ending := fun h => h.2.2 h0
      rw [if_neg fun h => waits.mp h h0, if_neg housed, if_pos ⟨apart, homeless, h0⟩, apart]
      exact listed_entriesBelow c u k _ _
    · have sheltered : c.Sheltered u k w.ending := ⟨apart, homeless, h0⟩
      rw [if_pos (waits.mpr h0), if_pos sheltered, if_neg fun h => h0 h.2.2, List.append_nil]
      exact listed_entriesBelow c u k _ _
  · have housed : ¬c.Sheltered u k w.ending := fun h => hs (stray.mpr ⟨h.1, h.2.1⟩)
    rw [if_neg hs, if_neg housed, if_neg fun h => hs (stray.mpr ⟨h.1, h.2.1⟩), List.append_nil]
    exact listed_entriesBelow c u k _ _

theorem survey_eq (c : Catalog β) (limit : Nat) (u : Uuid) :
    ∃ k ending entries, c.Stops limit [] u k ending ∧
      c.Listed u k (c.topParent? u k ending) (c.dropped u k ending) entries ∧
      c.survey limit limit [] u = (if c.Sheltered u k ending then
        c.defaultSurvey limit (c.chain u k).reverse else []) ++ entries := by
  obtain ⟨k, stops, chain, top⟩ := c.stops_walk limit [] u
  refine ⟨k, _, _, stops, listed_entries chain top, ?_⟩
  have refuge : ((c.walk limit [] u).isHomeless c && !(c.chain u k).contains 0) = true ↔
      c.Sheltered u k (c.walk limit [] u).ending := by
    simp [Walk.isHomeless, Sheltered, top, and_assoc]
  unfold survey
  dsimp only
  rw [List.append_nil, List.append_nil, chain]
  congr 1
  exact if_congr refuge rfl rfl

variable [TrackSink β]

def withDefault (c : Catalog β) : Catalog β :=
  if (c.reservation? 0).isSome then c else c.reserve 0 c.defaultReservation

theorem declared_withDefault (unreserved : c.reservation? 0 = none) :
    c.withDefault.declared 0 = 0 := by
  rw [withDefault, if_neg (by simp [unreserved]), declared,
    reservation?_reserve_of_unreserved unreserved, if_pos rfl]
  rfl

theorem defaultSurvey_eq (c : Catalog β) (limit : Nat) (path : List Uuid)
    (absent : c.placement? 0 = none) :
    ∃ m ending, c.withDefault.Stops limit path 0 m ending ∧
      c.withDefault.Listed 0 m (c.withDefault.topParent? 0 m ending)
        (c.withDefault.dropped 0 m ending) (c.defaultSurvey limit path) := by
  cases reserved : c.reservation? 0 with
  | none =>
    have declared := declared_withDefault reserved
    have homeless : c.withDefault.homeless 0 = false := by simp [Catalog.homeless]
    have survey : c.defaultSurvey limit path = [⟨0, none, []⟩] := by
      simp [defaultSurvey, absent, reserved]
    refine ⟨0, .root, ⟨if_pos declared, fun j hj => absurd hj (Nat.not_lt_zero j)⟩, ?_⟩
    have top : c.withDefault.topParent? 0 0 .root = none := by
      simp [topParent?, Sheltered, link, homeless, Ending.joined?]
    have dropped : c.withDefault.dropped 0 0 .root = [] := by
      simp [Catalog.dropped, link, homeless, Ending.cuts]
    rw [survey, top, dropped]
    exact listed_entriesBelow c.withDefault 0 0 none []
  | some r =>
    have same : c.withDefault = c := if_pos (by simp [reserved])
    obtain ⟨m, stops, chain, top⟩ := c.stops_walk limit path 0
    have survey : c.defaultSurvey limit path =
        (c.walk limit path 0).entries c !(c.chain 0 m).contains 0 := by
      simp [defaultSurvey, absent, reserved, mem_chain_self]
    rw [same, survey]
    exact ⟨m, _, stops, listed_entries chain top⟩

end Entries
end Catalog
namespace Session

structure Climbed (c c' : Session) (limit : Nat) (path : List Uuid) (u : Uuid) (k : Nat)
    (ending : Ending) : Prop where
  stops : c.Stops limit path u k ending
  inner : ∀ j < k, c'.parentOf? (c.link u j) = some (c.link u (j + 1))
  top : c'.parentOf? (c.link u k) = c.topParent? u k ending

structure Placing (c c' : Session) (uuids : List Uuid) (cuts : List Cut) : Prop where
  keys : c'.placements.keys = c.placements.keys ++ uuids
  counts : ∀ cut : Cut,
    c'.countOf cut.anomaly = c.countOf cut.anomaly + cutCount cut.anomaly cuts

/-- Looking up a uuid, told by the walk from it. A default track that is needed and not there is
made on the way, by a walk of its own that keeps off the first one. -/
structure WalksUp (c : Session) (u : Uuid) (reply : Reply) (c' : Session) (k : Nat)
    (ending : Ending) : Prop where
  climbed : Climbed c c' c.settings.maxAncestors [] u k ending
  reply : ∃ p, c'.placement? u = some p ∧ reply = .track (some p.track)
  kept : ∀ v p, c.placement? v = some p →
    c'.placement? v = some p ∧ c'.parentOf? v = c.parentOf? v
  alone : ¬(c.Sheltered u k ending ∧ c.placement? 0 = none) →
    Placing c c' (c.chain u k).reverse (c.dropped u k ending)
  default : c.Sheltered u k ending → c.placement? 0 = none → ∃ m ending₀,
    Climbed c.withDefault c' c.settings.maxAncestors (c.chain u k) 0 m ending₀ ∧
    c'.reservation? 0 = c.withDefault.reservation? 0 ∧
    Placing c c' ((c.withDefault.chain 0 m).reverse ++ (c.chain u k).reverse)
      (c.withDefault.dropped 0 m ending₀ ++ c.dropped u k ending)

section Lookup
variable {log entries : List Entry} {c c' : Session} {limit : Nat} {path : List Uuid} {u : Uuid}
  {k : Nat} {ending : Ending}

theorem climbed_of_listed (s : Sound log [] c') (words : c'.vocabulary.Distinct)
    (sub : ∀ e ∈ entries, e ∈ log) (stops : c.Stops limit path u k ending)
    (listed : c.Listed u k (c.topParent? u k ending) (c.dropped u k ending) entries) :
    Climbed c c' limit path u k ending :=
  ⟨stops, fun j hj => s.parentOf?_eq words (sub _ (listed.inner j hj)),
    s.parentOf?_eq words (sub _ listed.top)⟩

theorem placing_of_sound (s : Sound log [] c) (s' : Sound (log ++ entries) [] c')
    (progress : Progress c c' (cutsOf entries)) :
    Placing c c' (entries.map Entry.uuid) (cutsOf entries) := by
  refine ⟨?_, fun cut => progress.counts _ ?_⟩
  · rw [s'.keys, s.keys, List.map_append]
  · cases cut <;> rfl

theorem reservation?_withDefault (progress : Progress c c' (cutsOf entries))
    (s : Sound log [] c') (placed : (c'.placement? 0).isSome) :
    c'.reservation? 0 = c.withDefault.reservation? 0 := by
  cases reserved : c.reservation? 0 with
  | some r =>
    have same : c.withDefault = c := if_pos (by simp [reserved])
    rw [same, progress.reservation?_eq reserved, reserved]
  | none =>
    obtain ⟨p, hp⟩ := Option.isSome_iff_exists.mp placed
    obtain ⟨e, -, he, r, q, stands⟩ := s.stands_of_placement? hp
    have announced := progress.announced 0
    rw [reserved, ← he, stands.reserved, he] at announced
    have made : c.withDefault.reservation? 0 = some c.defaultReservation := by
      rw [Catalog.withDefault, if_neg (by simp [reserved]),
        Catalog.reservation?_reserve_of_unreserved reserved, if_pos rfl]
    rw [made]
    rcases announced with h | ⟨-, -, h⟩
    · cases h
    · rw [← he, stands.reserved, h]

theorem parentOf?_kept (s : Sound log [] c) (s' : Sound (log ++ entries) [] c')
    (words : c.vocabulary.Distinct) (extend : Extends c c') {v : Uuid} {p : Placement}
    (hp : c.placement? v = some p) : c'.parentOf? v = c.parentOf? v := by
  have words' : c'.vocabulary.Distinct := by rwa [extend.vocabulary]
  obtain ⟨e, he, rfl, -⟩ := s.stands_of_placement? hp
  rw [s.parentOf?_eq words he, s'.parentOf?_eq words' (List.mem_append_left _ he)]

theorem perform_track_null (s : Sound log [] c)
    (fits : Fits (c.perform (.track u .null)).2) : ∃ c' : Session,
      c.perform (.track u .null) = (.track ((c'.placement? u).map Placement.track), c') ∧
      Sound (log ++ c.arrivals c.settings.maxAncestors c.settings.maxAncestors [] u) [] c' ∧
      Progress c c'
        (cutsOf (c.arrivals c.settings.maxAncestors c.settings.maxAncestors [] u)) := by
  rw [perform_track] at fits
  obtain ⟨c₁, c', found, sound, progress, rfl | ⟨named, -⟩⟩ := track?_ok s fits
  · refine ⟨c', ?_, sound, progress⟩
    simp only [Catalog.perform, found]
  · cases named

theorem walksUp (s : Sound log [] c) (words : c.vocabulary.Distinct)
    (reserved : (c.reservation? u).isSome) (absent : c.placement? u = none)
    (fits : Fits (c.perform (.track u .null)).2) : ∃ k ending,
      WalksUp c u (c.perform (.track u .null)).1 (c.perform (.track u .null)).2 k ending := by
  obtain ⟨c', found, sound, progress⟩ := perform_track_null s fits
  rw [Catalog.arrivals_of_absent _ _ [] absent reserved] at sound progress
  obtain ⟨k, ending, entries, stops, listed, survey⟩ := c.survey_eq c.settings.maxAncestors u
  rw [survey] at sound progress
  rw [found]
  have words' : c'.vocabulary.Distinct := by rwa [progress.kept.vocabulary]
  have placing := placing_of_sound s sound progress
  have located : (c'.placement? u).isSome := by
    apply sound.isSome_of_mem
    rw [List.map_append, List.map_append, listed.uuids]
    exact List.mem_append_right _ (List.mem_append_right _
      (List.mem_reverse.mpr (c.mem_chain_self u k)))
  refine ⟨k, ending, ?_, ?_, ?_, ?_, ?_⟩
  · exact climbed_of_listed sound words'
      (fun e he => List.mem_append_right _ (List.mem_append_right _ he)) stops listed
  · obtain ⟨p, hp⟩ := Option.isSome_iff_exists.mp located
    exact ⟨p, hp, by rw [hp, Option.map_some]⟩
  · intro v p hp
    exact ⟨progress.kept.placed v p hp,
      parentOf?_kept s sound words progress.kept hp⟩
  · -- No shelter, or the default track is there already: only the chain is new.
    intro alone
    have none : (if c.Sheltered u k ending then c.defaultSurvey c.settings.maxAncestors
        (c.chain u k).reverse else []) = [] := by
      split
      next sheltered =>
        have placed : (c.placement? 0).isSome := by
          rw [Option.isSome_iff_ne_none]
          exact fun h => alone ⟨sheltered, h⟩
        exact if_pos placed
      next => rfl
    rw [none, List.nil_append, listed.uuids, listed.cuts] at placing
    exact placing
  · -- The default track comes first, up from a chain of its own that stops short of the other one.
    intro sheltered absent₀
    obtain ⟨m, ending₀, stops₀, listed₀⟩ :=
      c.defaultSurvey_eq c.settings.maxAncestors (c.chain u k).reverse absent₀
    rw [if_pos sheltered] at sound progress placing
    rw [List.map_append, cutsOf_append, listed.uuids, listed.cuts, listed₀.uuids,
      listed₀.cuts] at placing
    have climbed := climbed_of_listed sound words'
      (fun e he => List.mem_append_right _ (List.mem_append_left _ he)) stops₀ listed₀
    have zero : (c'.placement? 0).isSome := by
      apply sound.isSome_of_mem
      rw [List.map_append, List.map_append, listed₀.uuids]
      exact List.mem_append_right _ (List.mem_append_left _
        (List.mem_reverse.mpr (c.withDefault.mem_chain_self 0 m)))
    refine ⟨m, ending₀, ⟨?_, climbed.inner, climbed.top⟩,
      reservation?_withDefault progress sound zero, placing⟩
    have same : c.withDefault.stop? c.settings.maxAncestors (c.chain u k).reverse 0 =
        c.withDefault.stop? c.settings.maxAncestors (c.chain u k) 0 :=
      Catalog.stop?_congr fun v => List.mem_reverse
    exact ⟨same ▸ stops₀.here, fun j hj => same ▸ stops₀.first j hj⟩

end Lookup

end Session

namespace History

/-- In every state, looking up an announced uuid that has no track yet walks up its parents. -/
theorem track_walks_up (h : History) {u : Uuid} (reserved : (h.state.reservation? u).isSome)
    (absent : h.state.placement? u = none)
    (fits : Session.Fits (h.state.perform (.track u .null)).2) : ∃ k ending,
      Session.WalksUp h.state u (h.state.perform (.track u .null)).1
        (h.state.perform (.track u .null)).2 k ending := by
  have roomy : h.state.Fits :=
    fits.of_grows (Session.grows_move h.state (.command (.track u .null)))
  exact Session.walksUp (sound roomy) (distinct roomy) reserved absent fits

theorem tangled_walks_up : ∃ k ending,
    Session.WalksUp tangled.state 7 (tangled.state.perform (.track 7 .null)).1
      (tangled.state.perform (.track 7 .null)).2 k ending :=
  tangled.track_walks_up (by decide +kernel) (by decide +kernel)
    ⟨by decide +kernel, by decide +kernel, by decide +kernel⟩

end History
end TraceTracks
