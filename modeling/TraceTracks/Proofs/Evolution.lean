import TraceTracks.Catalog.Command
import TraceTracks.Proofs.Resolution

/-! What a look-up does to a catalog over any backend, one step at a time. What each step respects,
be it let through or refused, is respected by every look-up. -/
namespace TraceTracks

def Act.left {β α : Type} : EStateM.Result Fault (Catalog β) α → Catalog β
  | .ok _ c => c
  | .error _ c => c

theorem Act.left_map {β α γ : Type} (f : α → γ) (x : Act β α) (c : Catalog β) :
    left ((f <$> x) c) = left (x c) := by
  cases hc : x c with
  | ok a c₁ => rw [Act.map_ok hc, left, left]
  | error e c₁ => rw [Act.map_error hc, left, left]

namespace Catalog
variable {β α γ : Type}

/-- Every catalog stands in a relation to what is left of it. -/
def Evolves (R : Catalog β → Catalog β → Prop) (x : Act β α) : Prop := ∀ c, R c (Act.left (x c))

/-- The single steps of look-ups respect a relation. -/
structure Steps [TrackSink β] [LifetimeSource β] (R : Catalog β → Catalog β → Prop) : Prop where
  refl : ∀ c, R c c
  trans : ∀ {a b c}, R a b → R b c → R a c
  count : ∀ a, Evolves R (modify (count a) : Act β PUnit)
  createRow : ∀ scope flavor,
    Evolves R (Act.onBackend (TrackSink.createTrack scope flavor) : Act β TrackId)
  threadRow : ∀ utid, Evolves R (Act.onBackend (TrackSink.threadTrack utid) : Act β TrackId)
  processRow : ∀ upid, Evolves R (Act.onBackend (TrackSink.processTrack upid) : Act β TrackId)
  claimThread : ∀ uuid pid tid,
    Evolves R (Act.claim (Owners.claimThread uuid pid tid) : Act β (Claim .thread))
  claimProcess : ∀ uuid pid,
    Evolves R (Act.claim (Owners.claimProcess uuid pid) : Act β (Claim .process))
  addArg : ∀ track key value,
    Evolves R (Act.tryBackend (TrackSink.addArg track key value) : Act β Unit)
  setName : ∀ track name, Evolves R (Act.tryBackend (TrackSink.setName track name) : Act β Unit)
  name : ∀ track, Evolves R (Act.tryBackend (TrackSink.name track) : Act β StringId)
  remember : ∀ uuid p, Evolves R
    (modify fun c => { c with placements := c.placements.insert uuid p } : Act β PUnit)
  announceDefault : ∀ name,
    Evolves R (modify (reserve 0 (Descriptor.child 0 name).reservation) : Act β PUnit)

section Acts
variable [TrackSink β] [LifetimeSource β]

def nameAfter (uuid : Uuid) (event : StringId) : Option Placement → Act β (Option TrackId)
  | none => return none
  | some placement => do
    if !StringId.isNull event && ((← get).reservation? uuid).any (!·.hasFixedName) then
      nameIfUnnamed placement.track event
    return some placement.track

theorem track?_eq_bind (uuid : Uuid) (event : StringId) (c : Catalog β) : track? uuid event c =
    (resolve c.settings.maxAncestors .empty uuid >>= nameAfter uuid event) c := by
  unfold track?
  rw [Act.bind_ok (Act.get_ok c)]
  rfl

def elseMakeDefault : Option Placement → Act β Placement
  | some placement => return placement
  | none => makeDefault

theorem defaultTrackId_eq_map (c : Catalog β) : defaultTrackId c =
    (Placement.track <$> defaultTrack (resolve c.settings.maxAncestors .empty 0)) c := by
  unfold defaultTrackId
  rw [Act.bind_ok (Act.get_ok c)]
  rfl

end Acts

section Evolves
variable {R : Catalog β → Catalog β → Prop}

theorem Evolves.get {f : Catalog β → Act β α} (hf : ∀ c, Evolves R (f c)) : Evolves R (get >>= f) :=
  fun c => hf c c

theorem Evolves.left_bind (refl : ∀ c, R c c) (x : Act β α) {f : α → Act β γ}
    (hf : ∀ a, Evolves R (f a)) (c : Catalog β) : R (Act.left (x c)) (Act.left ((x >>= f) c)) := by
  cases hc : x c with
  | ok a c₁ =>
    rw [Act.bind_ok hc]
    exact hf a c₁
  | error e c₁ =>
    rw [Act.bind_error hc]
    exact refl c₁

theorem Evolves.findOrMake (refl : ∀ c, R c c) (uuid : Uuid)
    {make : Reservation → Act β (Option Placement)} (hm : ∀ r, Evolves R (make r)) :
    Evolves R (findOrMake uuid make) := by
  refine .get fun c => ?_
  cases c.placement? uuid with
  | some p => exact refl
  | none =>
  refine .get fun c => ?_
  cases c.reservation? uuid with
  | none => exact refl
  | some r => exact hm r

end Evolves

namespace Steps
variable [TrackSink β] [LifetimeSource β] {R : Catalog β → Catalog β → Prop}

theorem left_bind (h : Steps R) (x : Act β α) {f : α → Act β γ} (hf : ∀ a, Evolves R (f a))
    (c : Catalog β) : R (Act.left (x c)) (Act.left ((x >>= f) c)) :=
  Evolves.left_bind h.refl x hf c

theorem bind (h : Steps R) {x : Act β α} {f : α → Act β γ} (hx : Evolves R x)
    (hf : ∀ a, Evolves R (f a)) : Evolves R (x >>= f) :=
  fun c => h.trans (hx c) (h.left_bind x hf c)

theorem ground (h : Steps R) : Ground fun {α} (x : Act β α) => Evolves R x where
  pure _ := h.refl
  bind := h.bind
  count := h.count
  createRow := h.createRow
  threadRow := h.threadRow
  processRow := h.processRow
  claimThread := h.claimThread
  claimProcess := h.claimProcess

theorem annotate (h : Steps R) (track : TrackId) (uuid : Uuid) (parent : Option TrackId)
    (category : StringId) : Evolves R (annotate track uuid parent category : Act β Unit) := by
  have categorized (words : Vocabulary) : Evolves R (do
      if !StringId.isNull category then
        Act.tryBackend (TrackSink.addArg track words.category (.string category)) :
          Act β Unit) := by
    split
    · exact h.addArg _ _ _
    · exact h.refl
  refine .get fun c => (h.bind (h.addArg _ _ _) fun _ => h.bind (h.addArg _ _ _) fun _ => ?_)
  cases parent with
  | none => exact categorized c.vocabulary
  | some parent => exact h.bind (h.addArg _ _ _) fun _ => categorized c.vocabulary

theorem record (h : Steps R) (uuid : Uuid) (r : Reservation) (p : Placement)
    (parent : Option Placement) : Evolves R (record uuid r p parent : Act β Placement) := by
  refine h.bind (h.annotate _ _ _ _) fun _ => h.bind (h.remember uuid p) fun _ => ?_
  split
  · exact h.bind (h.setName _ _) fun _ => h.refl
  · exact h.refl

theorem closed (h : Steps R) : Closed fun {α} (x : Act β α) => Evolves R x where
  toGround := h.ground
  record := h.record
  makeDefault := .get fun _ => h.bind (h.announceDefault _) fun _ =>
    h.bind (h.ground.createTrack _ _) fun _ => h.record _ _ _ _
  findOrMake uuid _ _ hm := Evolves.findOrMake h.refl uuid hm

theorem countCuts (h : Steps R) (cuts : List Cut) (c : Catalog β) : R c (c.countCuts cuts) := by
  induction cuts generalizing c with
  | nil => exact h.refl c
  | cons cut cuts ih => exact h.trans (h.count cut.anomaly c) (ih _)

theorem settle (h : Steps R) (uuid : Uuid) (r : Reservation) (parent : Option Placement) :
    Evolves R (settle uuid r parent : Act β Placement) :=
  h.bind (h.ground.situate uuid r parent) fun p => h.record uuid r p parent

theorem resolution (h : Steps R) {limit : Nat} {path : Trail} {uuid : Uuid} {c : Catalog β}
    {result : EStateM.Result Fault (Catalog β) (Option Placement)}
    (x : Resolution limit path uuid c result) : R c (Act.left result) := by
  have made {scope : Scope} {r : Reservation} {p : Placement} {c c₁ : Catalog β}
      (hc : createTrack scope r c = .ok p c₁) : R c c₁ := by
    have row := h.ground.createTrack scope r c
    rwa [hc] at row
  induction x with
  | known => exact h.refl _
  | unannounced => exact h.refl _
  | joined => exact h.ground.map (h.settle _ _ _) some _
  | linked _ _ _ _ ih => exact h.trans ih (h.ground.map (h.settle _ _ _) some _)
  | linkFailed _ _ _ _ ih => exact ih
  | housed => exact h.trans (h.countCuts _ _) (h.ground.map (h.settle _ _ _) some _)
  | barred _ _ _ _ _ _ hc =>
    exact h.trans (h.countCuts _ _) (h.trans (made hc)
      (h.trans (h.count .loop _) (h.ground.map (h.record _ _ _ _) some _)))
  | sheltered _ _ _ _ _ _ hc _ ih =>
    exact h.trans (h.countCuts _ _) (h.trans (made hc)
      (h.trans ih (h.ground.map (h.record _ _ _ _) some _)))
  | shelterMade _ _ _ _ _ _ hc =>
    exact h.trans (h.countCuts _ _) (h.trans (made hc)
      (h.ground.map (h.bind h.closed.makeDefault fun q => h.record _ _ _ (some q)) some _))
  | shelterFailed _ _ _ _ _ _ hc _ ih =>
    exact h.trans (h.countCuts _ _) (h.trans (made hc) ih)

theorem nameAfter (h : Steps R) (uuid : Uuid) (event : StringId) (found : Option Placement) :
    Evolves R (nameAfter uuid event found : Act β (Option TrackId)) := by
  cases found with
  | none => exact h.refl
  | some p =>
    have named : Evolves R (nameIfUnnamed p.track event : Act β Unit) := by
      refine h.bind (h.name _) fun name => ?_
      split
      · exact h.setName _ _
      · exact h.refl
    refine .get fun c => ?_
    split
    · exact h.bind named fun _ => h.refl
    · exact h.refl

theorem track? (h : Steps R) (uuid : Uuid) (event : StringId) :
    Evolves R (track? uuid event : Act β (Option TrackId)) :=
  .get fun _ => h.bind (h.closed.resolve _ _ _) (h.nameAfter uuid event)

theorem elseMakeDefault (h : Steps R) (found : Option Placement) :
    Evolves R (elseMakeDefault found : Act β Placement) := by
  cases found with
  | some p => exact h.refl
  | none => exact h.closed.makeDefault

theorem defaultTrackId (h : Steps R) : Evolves R (defaultTrackId : Act β TrackId) :=
  .get fun _ => h.bind (h.bind (h.closed.resolve _ _ _) h.elseMakeDefault) fun _ => h.refl

theorem perform_track (h : Steps R) (c : Catalog β) (uuid : Uuid) (event : StringId) :
    R c (c.perform (.track uuid event)).2 := by
  have evolved := h.track? uuid event c
  unfold perform
  dsimp only
  split <;> rename_i outcome <;> rw [outcome] at evolved <;> exact evolved

theorem perform_defaultTrack (h : Steps R) (c : Catalog β) :
    R c (c.perform .defaultTrack).2 := by
  have evolved := h.defaultTrackId c
  unfold perform
  dsimp only
  split <;> rename_i outcome <;> rw [outcome] at evolved <;> exact evolved

end Steps

section Reservations
variable {R : Reservations → Reservations → Prop}

theorem reservations_onBackend (f : β → α × β) (c : Catalog β) :
    (Act.left (Act.onBackend f c)).reservations = c.reservations := rfl

theorem reservations_tryBackend (f : EStateM Fault β α) (c : Catalog β) :
    (Act.left (Act.tryBackend f c)).reservations = c.reservations := by
  unfold Act.tryBackend
  split <;> rfl

theorem reservations_claim (f : Claiming β α) (c : Catalog β) :
    (Act.left (Act.claim f c)).reservations = c.reservations := by
  unfold Act.claim
  split <;> rfl

/-- Looking a track up touches the reservations by announcing the default track only. -/
theorem steps_reservations [TrackSink β] [LifetimeSource β] (refl : ∀ rs, R rs rs)
    (trans : ∀ {a b c}, R a b → R b c → R a c)
    (announce : ∀ rs name, R rs (rs.reserve 0 (Descriptor.child 0 name).reservation).2) :
    Steps fun c c' : Catalog β => R c.reservations c'.reservations := by
  have same {α : Type} {x : Act β α}
      (h : ∀ c, (Act.left (x c)).reservations = c.reservations) :
      Evolves (fun c c' => R c.reservations c'.reservations) x := by
    intro c
    rw [h]
    exact refl _
  constructor
  case refl => exact fun _ => refl _
  case trans => exact fun h h' => trans h h'
  case count => exact fun _ => same fun _ => rfl
  case createRow => exact fun _ _ => same (reservations_onBackend _)
  case threadRow => exact fun _ => same (reservations_onBackend _)
  case processRow => exact fun _ => same (reservations_onBackend _)
  case claimThread => exact fun _ _ _ => same (reservations_claim _)
  case claimProcess => exact fun _ _ => same (reservations_claim _)
  case addArg => exact fun _ _ _ => same (reservations_tryBackend _)
  case setName => exact fun _ _ => same (reservations_tryBackend _)
  case name => exact fun _ => same (reservations_tryBackend _)
  case remember => exact fun _ _ => same fun _ => rfl
  case announceDefault =>
    intro name c
    change R c.reservations (c.reserve 0 _).reservations
    rw [reservations_reserve]
    exact announce _ name

theorem steps_spares [TrackSink β] [LifetimeSource β] :
    Steps fun c c' : Catalog β => ∀ u, u ≠ 0 → c'.reservation? u = c.reservation? u := by
  refine steps_reservations (R := fun rs rs' => ∀ u, u ≠ 0 → rs'.get? u = rs.get? u)
    (fun _ _ _ => rfl) (fun h h' u nonzero => (h' u nonzero).trans (h u nonzero)) ?_
  intro rs name u nonzero
  rw [Reservations.get?_reserve, if_neg nonzero]

end Reservations
end Catalog
end TraceTracks
