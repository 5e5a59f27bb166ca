import Mathlib.Logic.Relation
import TraceTracks.Proofs.History
import TraceTracks.Proofs.Machine

/-! Where the default track lands does not depend on the chain that first needs it. Two paths lead
to the same resolution when their depths are equal and no ancestor of the uuid is on just one of
them; below the default track nothing else is asked of a path. -/
namespace TraceTracks
namespace Catalog
variable {β : Type}

def Links (c : Catalog β) (u v : Uuid) : Prop := c.declared u = v ∧ v ≠ 0

def Ancestor (c : Catalog β) (v u : Uuid) : Prop := Relation.TransGen c.Links u v

theorem Ancestor.mem_of_closed {c : Catalog β} {u v : Uuid} {l : List Uuid} (h : c.Ancestor v u)
    (closed : ∀ w ∈ u :: l, c.declared w = 0 ∨ c.declared w ∈ l) : v ∈ l := by
  have rises {w x : Uuid} (hw : w ∈ u :: l) (link : c.Links w x) : x ∈ l := by
    obtain ⟨rfl, nonzero⟩ := link
    exact (closed w hw).resolve_left nonzero
  induction h with
  | single link => exact rises List.mem_cons_self link
  | tail _ link ih => exact rises (List.mem_cons_of_mem u ih) link

/-- Paths that the resolution of a uuid below the default track cannot tell apart. -/
structure Indistinct (c : Catalog β) (u : Uuid) (p q : Trail) : Prop where
  level : p.Level
  level' : q.Level
  depth : q.depth = p.depth
  contains : ∀ v, v = u ∨ c.Ancestor v u → q.contains v = p.contains v
  default : u = 0 ∨ p.contains 0 = true ∧ q.contains 0 = true

section Indistinct
variable {c : Catalog β} {u : Uuid} {p q : Trail}

theorem Indistinct.contains_declared (h : c.Indistinct u p q) (nonzero : c.declared u ≠ 0) :
    (q.enter u).contains (c.declared u) = (p.enter u).contains (c.declared u) := by
  have above : c.Ancestor (c.declared u) u := .single ⟨rfl, nonzero⟩
  rw [Trail.contains_enter, Trail.contains_enter, h.contains _ (.inr above)]

theorem Indistinct.enter (h : c.Indistinct u p q) (nonzero : c.declared u ≠ 0) :
    c.Indistinct (c.declared u) (p.enter u) (q.enter u) where
  level := h.level.enter u
  level' := h.level'.enter u
  depth := by rw [h.level.depth_enter, h.level'.depth_enter, h.depth]
  contains v hv := by
    have link : c.Links u (c.declared u) := ⟨rfl, nonzero⟩
    have above : c.Ancestor v u := by
      rcases hv with rfl | hv
      · exact .single link
      · exact .head link hv
    rw [Trail.contains_enter, Trail.contains_enter, h.contains v (.inr above)]
  default := by
    rcases h.default with rfl | ⟨hp, hq⟩
    · exact .inr (by simp)
    · exact .inr (by simp [hp, hq])

/-- A path is of no account to the default track if none of its ancestors is on it. -/
theorem indistinct_enterRoot (nonzero : u ≠ 0) (free : 0 ∉ p.above)
    (apart : ∀ v, c.Ancestor v 0 → v ∉ u :: p.above) :
    c.Indistinct 0 .empty (p.enterRoot u) where
  level := Trail.level_empty
  level' := Trail.level_enterRoot p u
  depth := Trail.depth_enterRoot p u
  contains v hv := by
    have outside : v ∉ (p.enterRoot u).above := by
      rw [Trail.above_enterRoot]
      rcases hv with rfl | hv
      · exact List.not_mem_cons_of_ne_of_not_mem (Ne.symm nonzero) free
      · exact apart v hv
    rw [← Trail.contains_iff_mem_above, Bool.not_eq_true] at outside
    rw [outside]
    simp [Trail.empty, Trail.contains]
  default := .inl rfl

end Indistinct

section Resolve
variable [TrackSink β] {c : Catalog β}

theorem defaultTrack_eq_of_resolve_eq {x y : Act β (Option Placement)} (h : x c = y c) :
    defaultTrack x c = defaultTrack y c := by
  unfold defaultTrack
  simp only [bind, EStateM.bind, h]

variable [LifetimeSource β] {u : Uuid} {r : Reservation} {p q : Trail}

/-- A link is followed or dropped in the same way from both paths. -/
theorem Indistinct.declaredLink_eq (h : c.Indistinct u p q) (limit : Nat)
    (reserved : c.reservation? u = some r)
    (above : (p.enter u).depth ≤ limit → c.declared u ≠ 0 →
      (resolve limit (q.enter u) r.parent : Act β (Option Placement)) c =
        resolve limit (p.enter u) r.parent c) :
    declaredLink limit q u r (nested limit q u) c =
      declaredLink limit p u r (nested limit p u) c := by
  have parent := declared_of_reservation? reserved
  unfold declaredLink
  by_cases root : r.parent = 0
  · rw [if_pos root, if_pos root]
  rw [if_neg root, if_neg root]
  have nonzero : c.declared u ≠ 0 := parent ▸ root
  have depth : (q.enter u).depth = (p.enter u).depth := by
    rw [h.level.depth_enter, h.level'.depth_enter, h.depth]
  have contains := h.contains_declared nonzero
  rw [parent] at contains
  unfold declaredParent
  by_cases short : (p.enter u).depth ≤ limit
  · rw [dif_pos (depth ▸ short), dif_pos short, contains]
    split
    · rfl
    · simp only [bind, EStateM.bind, above short nonzero]
  · rw [dif_neg (depth ▸ short), dif_neg short]

theorem Indistinct.afterLink_eq (h : c.Indistinct u p q) (limit : Nat) (r : Reservation)
    (declared : Option Placement) :
    (afterLink limit q u r (nested limit q u) declared : Act β Placement) =
      afterLink limit p u r (nested limit p u) declared := by
  unfold afterLink
  cases declared with
  | some parent => rfl
  | none =>
  dsimp only
  split
  · rfl
  next homeless =>
  have nonzero : u ≠ 0 := fun zero => homeless (.inr zero)
  obtain ⟨hp, hq⟩ := h.default.resolve_left nonzero
  rw [Trail.contains_iff_mem_above] at hp hq
  rw [fallbackParent_of_mem nonzero hp, fallbackParent_of_mem nonzero hq]

theorem Indistinct.resolve_eq (h : c.Indistinct u p q) (limit : Nat) :
    (resolve limit q u : Act β (Option Placement)) c = resolve limit p u c := by
  -- By induction on the allowance of the first path. What is resolved first is resolved from the
  -- same state, so that the links are still those of this state.
  induction hn : p.allowance limit u using Nat.strongRecOn generalizing p q u with
  | _ n ih =>
  subst hn
  rw [resolve_eq_resolveWith, resolve_eq_resolveWith]
  unfold resolveWith
  rw [Act.get_bind, Act.get_bind]
  cases c.placement? u with
  | some placement => rfl
  | none =>
  dsimp only
  rw [Act.get_bind, Act.get_bind]
  cases reserved : c.reservation? u with
  | none => rfl
  | some r =>
  have link := h.declaredLink_eq limit reserved fun short nonzero => by
    have next := h.enter nonzero
    rw [declared_of_reservation? reserved] at next
    exact ih _ (Trail.allowance_enter short r.parent) next rfl
  have rest : (afterLink limit q u r (nested limit q u) : Option Placement → Act β Placement) =
      afterLink limit p u r (nested limit p u) := funext (h.afterLink_eq limit r)
  simp only [materialize_eq_bind, Functor.map, EStateM.map, bind, EStateM.bind, link, rest]

end Resolve
end Catalog

namespace Machine
variable {β : Type} [TrackSink β] [LifetimeSource β]

/-- From a path that holds neither the default track nor any of its ancestors, a homeless track gets
the default track, with all that is done for it and also with its failures, as if nothing were on
the path; and then the path, its floor included, is what it was before. -/
theorem default_track_lands_alike (limit : Nat) (c : Catalog β) (path : Trail) {u : Uuid}
    (nonzero : u ≠ 0) (free : 0 ∉ path.above) (apart : ∀ v, c.Ancestor v 0 → v ∉ u :: path.above) :
    (Catalog.defaultTrack (Catalog.resolve limit (path.enterRoot u) 0) : Act β Placement) c =
      Catalog.defaultTrack (Catalog.resolve limit .empty 0) c ∧
    ∀ q frames r placement begun,
      Lands limit q ⟨c, path, frames, .shelter u r placement, begun⟩ path frames
        (.attach u r placement)
        ((some <$> Catalog.defaultTrack (Catalog.resolve limit .empty 0) :
          Act β (Option Placement)) c) := by
  have same := Catalog.defaultTrack_eq_of_resolve_eq
    ((Catalog.indistinct_enterRoot nonzero free apart).resolve_eq limit)
  refine ⟨same, fun q frames r placement begun => ?_⟩
  have lands : Lands limit q ⟨c, path, frames, .shelter u r placement, begun⟩ path frames
      (.attach u r placement)
      (Catalog.fallbackParent limit path u (Catalog.nested limit path u) c) :=
    lands_shelter nonzero fun _ frames begun => lands_resolve (path.enterRoot u) 0 c frames begun
  rw [Catalog.fallbackParent_of_not_mem nonzero free] at lands
  simpa only [Functor.map, EStateM.map, same] using lands

end Machine

namespace History

def coiled : History where
  settings := { maxAncestors := 1 }
  before := [.intern "chain"]
  moves := [.command (.announce 0 (.child 9 .null)), .command (.announce 9 (.child 8 .null)),
    .command (.announce 8 (.child 9 .null)), .command (.announce 6 (.child 0 .null)),
    .command (.announce 7 (.child 6 .null)), .command (.announce 5 (.child 7 .null))]
  room := by decide +kernel

end History

namespace Machine
open History (coiled)

/-- The depth of this path would be counted from beyond its end. -/
def skewed : Trail := ⟨#[5, 7], 9⟩

theorem default_track_lands_alike_coiled :
    (Catalog.defaultTrack (Catalog.resolve 1 (skewed.enterRoot 6) 0) : Act Trace Placement)
        coiled.state = Catalog.defaultTrack (Catalog.resolve 1 .empty 0) coiled.state ∧
    ∀ q frames r placement begun,
      Lands 1 q ⟨coiled.state, skewed, frames, .shelter 6 r placement, begun⟩ skewed frames
        (.attach 6 r placement)
        ((some <$> Catalog.defaultTrack (Catalog.resolve 1 .empty 0) :
          Act Trace (Option Placement)) coiled.state) := by
  have closed : ∀ w ∈ [0, 9, 8], coiled.state.declared w = 0 ∨
      coiled.state.declared w ∈ ([9, 8] : List Uuid) := by
    simp only [List.forall_mem_cons]
    exact ⟨by decide +kernel, by decide +kernel, by decide +kernel, List.forall_mem_nil _⟩
  have outside : ∀ v ∈ ([9, 8] : List Uuid), v ∉ 6 :: skewed.above := by
    simp only [List.forall_mem_cons]
    exact ⟨by decide, by decide, List.forall_mem_nil _⟩
  exact default_track_lands_alike 1 coiled.state skewed (by decide) (by decide) fun v above =>
    outside v (above.mem_of_closed closed)

end Machine
end TraceTracks
