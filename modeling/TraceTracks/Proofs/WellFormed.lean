import Mathlib.Logic.Relation
import TraceTracks.Proofs.ChainWalk

/-! Announcements that nothing is wrong with: no parent is missing, no chain is too long, and
nothing is its own ancestor, the default track being the parent of those without another. A walk
then only ends where there is no parent or where the parent has its track. -/
namespace TraceTracks
namespace Catalog
variable {β : Type}

/-- The parent that a uuid should get: the one it was announced with, or else the default track,
unless the uuid has a pid or is the default track's. -/
def effectiveParent? (c : Catalog β) (u : Uuid) : Option Uuid :=
  if c.declared u ≠ 0 then some (c.declared u) else if c.homeless u then some 0 else none

def Under (c : Catalog β) (u v : Uuid) : Prop := c.effectiveParent? u = some v

structure WellFormed (c : Catalog β) : Prop where
  announced : ∀ u, c.declared u ≠ 0 → (c.reservation? (c.declared u)).isSome
  acyclic : ∀ u, ¬Relation.TransGen c.Under u u
  short : ∀ u k, (∀ j < k, c.declared (c.link u j) ≠ 0) → k ≤ c.settings.maxAncestors

section Rank
variable {c : Catalog β} {u v : Uuid} {rank : Uuid → Nat}

theorem mem_keys_of_under (h : c.Under u v) : u ∈ c.reservations.byUuid.keys := by
  rw [← Registry.contains_iff_mem_keys, Registry.contains, Option.isSome_iff_ne_none]
  intro hnone
  have unreserved : c.reservation? u = none := hnone
  have declared : c.declared u = 0 := by
    rw [Catalog.declared, unreserved]
    rfl
  have homeless : c.homeless u = false := by
    rw [Catalog.homeless, unreserved]
    rfl
  rw [Under, effectiveParent?, if_neg (not_not_intro declared), homeless] at h
  cases h

theorem rank_lt_of_transGen (descends : ∀ u v, c.Under u v → rank v < rank u)
    (h : Relation.TransGen c.Under u v) : rank v < rank u := by
  induction h with
  | single h => exact descends _ _ h
  | tail _ h ih => exact Nat.lt_trans (descends _ _ h) ih

theorem rank_link_add_le (descends : ∀ u v, c.Under u v → rank v < rank u) {k : Nat}
    (opens : ∀ j < k, c.declared (c.link u j) ≠ 0) : rank (c.link u k) + k ≤ rank u := by
  induction k with
  | zero => exact Nat.le_refl _
  | succ k ih =>
    have above := ih fun j hj => opens j (by omega)
    have step : rank (c.link u (k + 1)) < rank (c.link u k) :=
      descends _ _ (if_pos (opens k (Nat.lt_succ_self k)))
    omega

/-- A rank falls along every parent, and no chain can be longer than the rank it starts from. -/
def rankFalls (c : Catalog β) (rank : Uuid → Nat) : Bool :=
  c.reservations.byUuid.keys.all fun u =>
    (c.declared u == 0 || (c.reservation? (c.declared u)).isSome) &&
      (c.effectiveParent? u).all (rank · < rank u) && rank u ≤ c.settings.maxAncestors

theorem WellFormed.of_rankFalls (h : c.rankFalls rank = true) : c.WellFormed := by
  have checked (u v : Uuid) (hu : c.Under u v) : (c.declared u ≠ 0 →
      (c.reservation? (c.declared u)).isSome) ∧ rank v < rank u ∧
        rank u ≤ c.settings.maxAncestors := by
    have here := List.all_eq_true.mp h u (mem_keys_of_under hu)
    have parent : c.effectiveParent? u = some v := hu
    simpa [parent, Classical.or_iff_not_imp_left, and_assoc] using here
  have falls (u v : Uuid) (hu : c.Under u v) : rank v < rank u := (checked u v hu).2.1
  refine ⟨fun u hu => ?_, fun u above => ?_, fun u k opens => ?_⟩
  · exact (checked u _ (if_pos hu)).1 hu
  · exact Nat.lt_irrefl _ (rank_lt_of_transGen falls above)
  · cases k with
    | zero => exact Nat.zero_le _
    | succ k =>
      have room := (checked u _ (if_pos (opens 0 (Nat.succ_pos k)))).2.2
      have fallen := rank_link_add_le falls opens
      omega

end Rank

section Walk
variable {c : Catalog β} {u : Uuid} {k : Nat} {path : List Uuid} {ending : Ending}

theorem under_declared (h : c.declared u ≠ 0) : c.Under u (c.declared u) := if_pos h

theorem under_zero (h : c.declared u = 0) (homeless : c.homeless u = true) : c.Under u 0 := by
  unfold Under effectiveParent?
  rw [if_neg (not_not_intro h), if_pos homeless]

theorem reflTransGen_link (opens : ∀ j < k, c.declared (c.link u j) ≠ 0) {i : Nat} (hi : i ≤ k) :
    Relation.ReflTransGen c.Under (c.link u i) (c.link u k) := by
  induction k with
  | zero =>
    obtain rfl : i = 0 := by omega
    exact .refl
  | succ k ih =>
    rcases Nat.lt_or_eq_of_le hi with hlt | rfl
    · have up := ih (fun j hj => opens j (by omega)) (by omega)
      exact .tail up (under_declared (opens k (by omega)))
    · exact .refl

theorem Stops.opens (s : c.Stops c.settings.maxAncestors path u k ending) :
    ∀ j < k, c.declared (c.link u j) ≠ 0 := by
  intro j hj h0
  have open' := s.first j hj
  rw [stop?, if_pos h0] at open'
  cases open'

theorem reflTransGen_of_mem_chain (s : c.Stops c.settings.maxAncestors path u k ending) {v : Uuid}
    (hv : v ∈ c.chain u k) : Relation.ReflTransGen c.Under v (c.link u k) := by
  obtain ⟨i, hi, rfl⟩ := mem_chain.mp hv
  exact reflTransGen_link s.opens hi

theorem WellFormed.stops_cases (w : c.WellFormed)
    (s : c.Stops c.settings.maxAncestors path u k ending)
    (clear : ∀ v ∈ path, Relation.ReflTransGen c.Under v u) :
    (c.declared (c.link u k) = 0 ∧ ending = .root) ∨
      (c.declared (c.link u k) ≠ 0 ∧ ending = .join (c.declared (c.link u k))) := by
  have here := s.here
  unfold stop? at here
  dsimp only at here
  by_cases h0 : c.declared (c.link u k) = 0
  · rw [if_pos h0] at here
    exact .inl ⟨h0, (Option.some.inj here).symm⟩
  -- The next link is neither too far up nor back into the chain or the path, and not unknown, so
  -- that the walk can only have stopped at a track that is there already.
  have last := under_declared h0
  have opens : ∀ j < k + 1, c.declared (c.link u j) ≠ 0 := by
    intro j hj
    rcases Nat.lt_or_eq_of_le (Nat.le_of_lt_succ hj) with hj | rfl
    · exact s.opens j hj
    · exact h0
  have room : ¬c.settings.maxAncestors < k + 1 := Nat.not_lt.mpr (w.short u (k + 1) opens)
  have apart : c.declared (c.link u k) ∉ c.chain u k ++ path := by
    intro hm
    rcases List.mem_append.mp hm with hm | hm
    · exact w.acyclic _ (.tail' (reflTransGen_of_mem_chain s hm) last)
    · have up := reflTransGen_link s.opens (Nat.zero_le k)
      exact w.acyclic _ (.tail' ((clear _ hm).trans up) last)
  have known := w.announced _ h0
  rw [if_neg h0, if_neg room, if_neg apart] at here
  split at here
  · exact .inr ⟨h0, (Option.some.inj here).symm⟩
  · rw [if_neg (by simpa [Option.isSome_iff_ne_none] using known)] at here
    cases here

theorem WellFormed.zero_not_mem_chain (w : c.WellFormed)
    (s : c.Stops c.settings.maxAncestors path u k ending) (h : c.declared (c.link u k) = 0)
    (homeless : c.homeless (c.link u k) = true) : 0 ∉ c.chain u k := fun hm =>
  w.acyclic 0 (.tail' (reflTransGen_of_mem_chain s hm) (under_zero h homeless))

/-- Nothing is dropped, and every uuid gets the parent it should. -/
theorem WellFormed.listed (w : c.WellFormed) (s : c.Stops c.settings.maxAncestors path u k ending)
    (clear : ∀ v ∈ path, Relation.ReflTransGen c.Under v u) {entries : List Entry}
    (listed : c.Listed u k (c.topParent? u k ending) (c.dropped u k ending) entries) :
    ∀ e ∈ entries, e.cuts = [] ∧ e.parent = c.effectiveParent? e.uuid := by
  intro e he
  rcases listed.only e he with ⟨j, hj, rfl⟩ | rfl
  · exact ⟨rfl, (under_declared (s.opens j hj)).symm⟩
  dsimp only
  unfold dropped topParent?
  rcases w.stops_cases s clear with ⟨h0, rfl⟩ | ⟨h0, rfl⟩
  · cases homeless : c.homeless (c.link u k) with
    | true =>
      have apart := w.zero_not_mem_chain s h0 homeless
      rw [if_neg fun h => apart h.2.2, if_pos ⟨rfl, homeless, apart⟩]
      exact ⟨rfl, (under_zero h0 homeless).symm⟩
    | false =>
      have housed : ¬c.Sheltered u k .root := fun h => by simp [Sheltered, homeless] at h
      rw [if_neg (by simp), if_neg housed, effectiveParent?, if_neg (not_not_intro h0), homeless]
      exact ⟨rfl, rfl⟩
  · have housed : ¬c.Sheltered u k (.join (c.declared (c.link u k))) := fun h =>
      Option.some_ne_none _ h.1
    have sheltered : ¬(Ending.joined? (.join (c.declared (c.link u k))) = none ∧
        c.homeless (c.link u k) ∧ 0 ∈ c.chain u k) := fun h =>
      Option.some_ne_none _ h.1
    rw [if_neg sheltered, if_neg housed]
    exact ⟨rfl, (under_declared h0).symm⟩

end Walk

section Announced
variable {c c' : Catalog β} {u : Uuid} {path : List Uuid}

def Announces (c c' : Catalog β) : Prop :=
  ∀ u, c'.reservation? u = c.reservation? u ∨
    (u = 0 ∧ c.reservation? 0 = none ∧ c'.reservation? 0 = some c.defaultReservation)

theorem announces_withDefault [TrackSink β] (c : Catalog β) : c.Announces c.withDefault := by
  intro u
  unfold withDefault
  split
  · exact .inl rfl
  next unreserved =>
    have unreserved : c.reservation? 0 = none := by simpa using unreserved
    have reserved := reservation?_reserve_of_unreserved unreserved c.defaultReservation
    by_cases hu : u = 0
    · exact .inr ⟨hu, unreserved, (reserved 0).trans (if_pos rfl)⟩
    · exact .inl ((reserved u).trans (if_neg hu))

theorem Announces.declared_eq (h : c.Announces c') : c'.declared = c.declared := by
  funext u
  rcases h u with same | ⟨rfl, absent, made⟩
  · rw [declared, declared, same]
  · rw [declared, declared, absent, made]
    rfl

theorem Announces.homeless_eq (h : c.Announces c') : c'.homeless = c.homeless := by
  funext u
  rcases h u with same | ⟨rfl, -, -⟩
  · rw [homeless, homeless, same]
  · simp [homeless]

theorem Announces.effectiveParent?_eq (h : c.Announces c') :
    c'.effectiveParent? = c.effectiveParent? := by
  funext u
  rw [effectiveParent?, effectiveParent?, h.declared_eq, h.homeless_eq]

theorem Announces.under_eq (h : c.Announces c') : c'.Under = c.Under := by
  funext v w
  rw [Under, Under, h.effectiveParent?_eq]

theorem WellFormed.of_announces (w : c.WellFormed) (h : c.Announces c')
    (settings : c'.settings = c.settings) : c'.WellFormed where
  announced u hu := by
    rw [h.declared_eq] at hu ⊢
    rcases h (c.declared u) with same | ⟨h0, -⟩
    · rw [same]
      exact w.announced u hu
    · exact absurd h0 hu
  acyclic u := by
    rw [h.under_eq]
    exact w.acyclic u
  short u k opens := by
    have link : c'.link = c.link := by
      funext u k
      induction k with
      | zero => rfl
      | succ k ih => rw [Catalog.link, Catalog.link, ih, h.declared_eq]
    rw [settings]
    rw [link, h.declared_eq] at opens
    exact w.short u k opens

theorem settings_withDefault [TrackSink β] (c : Catalog β) :
    c.withDefault.settings = c.settings := by
  unfold withDefault reserve
  dsimp only
  split
  · rfl
  · split <;> rfl

theorem WellFormed.defaultSurvey [TrackSink β] (w : c.WellFormed)
    (clear : ∀ v ∈ path, Relation.ReflTransGen c.Under v 0) :
    ∀ e ∈ c.defaultSurvey c.settings.maxAncestors path,
      e.cuts = [] ∧ e.parent = c.effectiveParent? e.uuid := by
  cases placed : c.placement? 0 with
  | some p => simp [Catalog.defaultSurvey, placed]
  | none =>
    have announces := c.announces_withDefault
    have settings := c.settings_withDefault
    obtain ⟨m, ending, stops, listed⟩ := c.defaultSurvey_eq c.settings.maxAncestors path placed
    rw [← settings] at stops
    rw [← announces.under_eq] at clear
    rw [← announces.effectiveParent?_eq]
    exact (w.of_announces announces settings).listed stops clear listed

theorem WellFormed.survey [TrackSink β] (w : c.WellFormed) (u : Uuid) :
    ∀ e ∈ c.survey c.settings.maxAncestors c.settings.maxAncestors [] u,
      e.cuts = [] ∧ e.parent = c.effectiveParent? e.uuid := by
  obtain ⟨k, ending, entries, stops, listed, survey⟩ := c.survey_eq c.settings.maxAncestors u
  rw [survey]
  intro e he
  rcases List.mem_append.mp he with he | he
  · split at he
    next sheltered =>
      refine w.defaultSurvey (fun v hv => ?_) e he
      have top : c.declared (c.link u k) = 0 := by
        rcases w.stops_cases stops (List.forall_mem_nil _) with ⟨h0, -⟩ | ⟨-, rfl⟩
        · exact h0
        · exact absurd sheltered.1 (Option.some_ne_none _)
      exact .tail (reflTransGen_of_mem_chain stops (List.mem_reverse.mp hv))
        (under_zero top sheltered.2.1)
    next => cases he
  · exact w.listed stops (List.forall_mem_nil _) listed e he

theorem WellFormed.arrivals [TrackSink β] (w : c.WellFormed) (u : Uuid) :
    ∀ e ∈ c.arrivals c.settings.maxAncestors c.settings.maxAncestors [] u,
      e.cuts = [] ∧ e.parent = c.effectiveParent? e.uuid := by
  unfold Catalog.arrivals
  split
  · exact List.forall_mem_nil _
  · exact w.survey u

end Announced
end Catalog
end TraceTracks
