import TraceTracks.Catalog.Resolve
import TraceTracks.Proofs.Survey

/-! How resolution goes, call by call, over any backend. A call finds the track, finds nothing, or
makes the track once it has the parent's; it is followed by what is left to do, which may fail. All
that is said about resolution later is by induction on these calls. -/
namespace TraceTracks

namespace Act
variable {σ α γ : Type} {x : EStateM Fault σ α} {s s₁ : σ} {a : α} {e : Fault}

theorem bind_ok (h : x s = .ok a s₁) (f : α → EStateM Fault σ γ) : (x >>= f) s = f a s₁ := by
  simp only [bind, EStateM.bind, h]

theorem bind_error (h : x s = .error e s₁) (f : α → EStateM Fault σ γ) :
    (x >>= f) s = .error e s₁ := by
  simp only [bind, EStateM.bind, h]

theorem map_ok (h : x s = .ok a s₁) (f : α → γ) : (f <$> x) s = .ok (f a) s₁ := by
  simp only [Functor.map, EStateM.map, h]

theorem map_error (h : x s = .error e s₁) (f : α → γ) : (f <$> x) s = .error e s₁ := by
  simp only [Functor.map, EStateM.map, h]

theorem of_bind_ok {f : α → EStateM Fault σ γ} {c : γ} {s' : σ} (h : (x >>= f) s = .ok c s') :
    ∃ a s₁, x s = .ok a s₁ ∧ f a s₁ = .ok c s' := by
  cases hx : x s with
  | ok a s₁ => exact ⟨a, s₁, rfl, bind_ok hx f ▸ h⟩
  | error e s₁ =>
    rw [bind_error hx] at h
    cases h

theorem of_map_ok {f : α → γ} {c : γ} {s' : σ} (h : (f <$> x) s = .ok c s') :
    ∃ a, x s = .ok a s' ∧ f a = c := by
  rw [map_eq_pure_bind] at h
  obtain ⟨a, s₁, hx, hc⟩ := of_bind_ok h
  cases hc
  exact ⟨a, hx, rfl⟩

theorem of_map_error {f : α → γ} {s' : σ} (h : (f <$> x) s = .error e s') : x s = .error e s' := by
  cases hx : x s with
  | ok a s₁ =>
    rw [map_ok hx] at h
    cases h
  | error e s₁ =>
    rw [map_error hx] at h
    cases h
    rfl

theorem get_ok (s : σ) : (get : EStateM Fault σ σ) s = .ok s s := rfl

theorem modify_ok (f : σ → σ) (s : σ) :
    (modify f : EStateM Fault σ PUnit) s = .ok ⟨⟩ (f s) := rfl

end Act

namespace Trail

/-- The uuids on the path, innermost first. -/
def above (p : Trail) : List Uuid := p.uuids.toList.reverse

@[simp] theorem above_empty : empty.above = [] := rfl

@[simp] theorem depth_empty : empty.depth = 0 := rfl

@[simp] theorem above_enter (p : Trail) (uuid : Uuid) : (p.enter uuid).above = uuid :: p.above := by
  simp [above, enter]

@[simp] theorem above_enterRoot (p : Trail) (uuid : Uuid) :
    (p.enterRoot uuid).above = uuid :: p.above := by
  simp [above, enterRoot]

theorem contains_iff_mem_above {p : Trail} {uuid : Uuid} : p.contains uuid ↔ uuid ∈ p.above := by
  simp [contains, above]

theorem zero_notMem_above_enterRoot {p : Trail} {uuid : Uuid} (zero : 0 ∉ p.above)
    (nonzero : uuid ≠ 0) : 0 ∉ (p.enterRoot uuid).above := by
  rw [above_enterRoot]
  exact List.not_mem_cons_of_ne_of_not_mem nonzero.symm zero

def Level (p : Trail) : Prop := p.floor ≤ p.size

theorem level_empty : empty.Level := Nat.le_refl _

theorem Level.enter {p : Trail} (h : p.Level) (uuid : Uuid) : (p.enter uuid).Level := by
  unfold Level at *
  rw [size_enter]
  exact Nat.le_succ_of_le h

theorem level_enterRoot (p : Trail) (uuid : Uuid) : (p.enterRoot uuid).Level := by
  simp [Level, enterRoot, size]

theorem Level.depth_enter {p : Trail} (h : p.Level) (uuid : Uuid) :
    (p.enter uuid).depth = p.depth + 1 := by
  simp only [Level, size] at h
  simp only [depth, Trail.enter, Array.size_push]
  omega

end Trail

namespace Catalog
variable {β : Type}

theorem declared_notMem_above_enter {c : Catalog β} {room : Nat} {path : Trail} {uuid : Uuid}
    (opens : c.ending? room path.above uuid = none) :
    c.declared uuid ∉ (path.enter uuid).above := by
  rw [Trail.above_enter]
  exact (ending?_eq_none opens).2.2.1

variable [TrackSink β]

def countCuts (cuts : List Cut) (c : Catalog β) : Catalog β :=
  cuts.foldl (fun c cut => c.count cut.anomaly) c

def makeDefault : Act β Placement := do
  let reservation := (Descriptor.child 0 (← get).vocabulary.defaultTrackName).reservation
  modify (reserve 0 reservation)
  let placement ← createTrack .global reservation
  record 0 reservation placement none

theorem createTrack_ok (scope : Scope) (r : Reservation) (c : Catalog β) :
    ∃ p c₁, createTrack scope r c = .ok p c₁ := ⟨_, _, rfl⟩

theorem dropLink_apply (a : Anomaly) (c : Catalog β) :
    (dropLink a : Act β (Option Placement)) c = .ok none (c.count a) := rfl

variable {c c₁ : Catalog β} {found : Act β (Option Placement)}

theorem defaultTrack_of_found {p : Placement} (h : found c = .ok (some p) c₁) :
    defaultTrack found c = .ok p c₁ := by
  unfold defaultTrack
  rw [Act.bind_ok h]
  rfl

theorem defaultTrack_of_none (h : found c = .ok none c₁) :
    defaultTrack found c = makeDefault c₁ := by
  unfold defaultTrack
  rw [Act.bind_ok h]
  rfl

theorem defaultTrack_of_error {e : Fault} (h : found c = .error e c₁) :
    defaultTrack found c = .error e c₁ := by
  unfold defaultTrack
  rw [Act.bind_error h]

variable [LifetimeSource β]

def situate (uuid : Uuid) (reservation : Reservation) (parent : Option Placement) :
    Act β Placement :=
  match reservation.pid, reservation.tid with
  | some pid, some tid => claimThreadTrack uuid pid tid
  | some pid, none => claimProcessTrack uuid pid
  | none, _ => createTrack ((parent.bind Placement.childScope).getD .global) reservation

def settle (uuid : Uuid) (reservation : Reservation) (parent : Option Placement) :
    Act β Placement := do
  let placement ← situate uuid reservation parent
  record uuid reservation placement parent

section Materialize
variable {limit : Nat} {path : Trail} {uuid : Uuid} {r : Reservation}
  {below : Below β limit path uuid}

def declaredLink (limit : Nat) (path : Trail) (uuid : Uuid) (r : Reservation)
    (below : Below β limit path uuid) : Act β (Option Placement) :=
  if r.parent = 0 then pure none else declaredParent limit path uuid r.parent below

def afterLink (limit : Nat) (path : Trail) (uuid : Uuid) (r : Reservation)
    (below : Below β limit path uuid) : Option Placement → Act β Placement
  | some parent => settle uuid r (some parent)
  | none =>
    if r.pid.isSome ∨ uuid = 0 then settle uuid r none
    else do
      let placement ← createTrack .global r
      let parent ← fallbackParent limit path uuid below
      record uuid r placement parent

theorem materialize_eq_bind (limit : Nat) (path : Trail) (uuid : Uuid) (r : Reservation)
    (below : Below β limit path uuid) : materialize limit path uuid r below =
      declaredLink limit path uuid r below >>= afterLink limit path uuid r below := by
  have tail (declared : Option Placement) : (match r.pid, r.tid with
      | some pid, some tid => do
        let placement ← claimThreadTrack uuid pid tid
        record uuid r placement declared
      | some pid, none => do
        let placement ← claimProcessTrack uuid pid
        record uuid r placement declared
      | none, _ =>
        match declared with
        | some parent => do
          let placement ← createTrack (parent.childScope.getD .global) r
          record uuid r placement declared
        | none => do
          let placement ← createTrack .global r
          let parent ← fallbackParent limit path uuid below
          record uuid r placement parent) = afterLink limit path uuid r below declared := by
    unfold afterLink settle situate
    cases hp : r.pid with
    | none =>
      cases declared with
      | some parent => rfl
      | none =>
        by_cases hu : uuid = 0
        · simp [fallbackParent, hu]
        · simp [hu]
    | some pid => cases r.tid <;> cases declared <;> simp
  unfold materialize declaredLink
  by_cases h : r.parent = 0
  · simp only [if_pos h, pure_bind]
    exact tail none
  · simp only [if_neg h]
    exact congrArg (declaredParent limit path uuid r.parent below >>= ·) (funext tail)

end Materialize

section Link
variable {limit : Nat} {path : Trail} {uuid : Uuid} {r : Reservation}

abbrev nested (limit : Nat) (path : Trail) (uuid : Uuid) : Below β limit path uuid :=
  fun next longer _ => resolve limit longer next

theorem declaredParent_of_open (parent : Uuid) (hd : (path.enter uuid).depth ≤ limit)
    (hc : parent ∉ uuid :: path.above) :
    declaredParent limit path uuid parent (nested limit path uuid) = (do
      match ← (resolve limit (path.enter uuid) parent : Act β (Option Placement)) with
      | some placement => return some placement
      | none => dropLink .unknownParent) := by
  have hc : ¬(path.enter uuid).contains parent := by
    rw [Trail.contains_iff_mem_above, Trail.above_enter]
    exact hc
  unfold declaredParent
  rw [dif_pos hd]
  exact if_neg hc

theorem declaredLink_of_cut {ending : Ending} (level : path.Level)
    (reserved : c.reservation? uuid = some r)
    (ends : c.ending? (limit - path.depth) path.above uuid = some ending)
    (apart : ending.joined? = none) :
    declaredLink limit path uuid r (nested limit path uuid) c =
      .ok none (c.countCuts ending.cuts) := by
  have hdepth := level.depth_enter uuid
  simp only [ending?, declared_of_reservation? reserved] at ends
  -- The walk makes the same tests as the code, and in the same order.
  unfold declaredLink
  split at ends
  next h0 =>
    cases ends
    rw [if_pos h0]
    rfl
  next h0 =>
  rw [if_neg h0]
  split at ends
  next hroom =>
    cases ends
    unfold declaredParent
    rw [dif_neg (by omega)]
    rfl
  next hroom =>
  split at ends
  next hloop =>
    cases ends
    rw [← Trail.above_enter, ← Trail.contains_iff_mem_above] at hloop
    unfold declaredParent
    rw [dif_pos (by omega), if_pos hloop]
    rfl
  next hloop =>
  split at ends
  next => cases ends; cases apart
  next hplaced =>
  split at ends
  next hreserved =>
    cases ends
    rw [Option.not_isSome_iff_eq_none] at hplaced
    rw [Option.isNone_iff_eq_none] at hreserved
    rw [declaredParent_of_open _ (by omega) hloop,
      Act.bind_ok (resolve_of_unannounced hplaced hreserved _ _)]
    rfl
  next => cases ends

theorem declaredLink_of_open (level : path.Level) (reserved : c.reservation? uuid = some r)
    (opens : ∀ ending, c.ending? (limit - path.depth) path.above uuid = some ending →
      ending.joined?.isSome) :
    declaredLink limit path uuid r (nested limit path uuid) =
      (do
        match ← (resolve limit (path.enter uuid) r.parent : Act β (Option Placement)) with
        | some placement => return some placement
        | none => dropLink .unknownParent) := by
  have hdepth := level.depth_enter uuid
  simp only [ending?, declared_of_reservation? reserved] at opens
  have h0 : r.parent ≠ 0 := fun h0 => by simpa [Ending.joined?] using opens .root (if_pos h0)
  rw [if_neg h0] at opens
  have hroom : limit - path.depth ≠ 0 := fun h => by
    simpa [Ending.joined?] using opens .tooManyAncestors (if_pos h)
  rw [if_neg hroom] at opens
  have hloop : r.parent ∉ uuid :: path.above := fun h => by
    simpa [Ending.joined?] using opens .loop (if_pos h)
  unfold declaredLink
  rw [if_neg h0, declaredParent_of_open _ (by omega) hloop]

end Link

/-- A call of `resolve` and its outcome. The declared parent has its track already or is resolved
first; or there is none, and none is needed; or the default track takes its place, unless that one
waits for this very track. -/
inductive Resolution (limit : Nat) : Trail → Uuid → Catalog β →
    EStateM.Result Fault (Catalog β) (Option Placement) → Prop
  | known {path uuid c p} (placed : c.placement? uuid = some p) :
      Resolution limit path uuid c (.ok (some p) c)
  | unannounced {path uuid c} (absent : c.placement? uuid = none)
      (unreserved : c.reservation? uuid = none) :
      Resolution limit path uuid c (.ok none c)
  | joined {path uuid c r parent q} (absent : c.placement? uuid = none)
      (reserved : c.reservation? uuid = some r)
      (ends : c.ending? (limit - path.depth) path.above uuid = some (.join parent))
      (above : c.placement? parent = some q) :
      Resolution limit path uuid c ((some <$> settle uuid r (some q)) c)
  | linked {path uuid c c₁ r q} (absent : c.placement? uuid = none)
      (reserved : c.reservation? uuid = some r)
      (opens : c.ending? (limit - path.depth) path.above uuid = none)
      (above : Resolution limit (path.enter uuid) (c.declared uuid) c (.ok (some q) c₁)) :
      Resolution limit path uuid c ((some <$> settle uuid r (some q)) c₁)
  | linkFailed {path uuid c c₁ r e} (absent : c.placement? uuid = none)
      (reserved : c.reservation? uuid = some r)
      (opens : c.ending? (limit - path.depth) path.above uuid = none)
      (above : Resolution limit (path.enter uuid) (c.declared uuid) c (.error e c₁)) :
      Resolution limit path uuid c (.error e c₁)
  | housed {path uuid c r ending} (absent : c.placement? uuid = none)
      (reserved : c.reservation? uuid = some r)
      (ends : c.ending? (limit - path.depth) path.above uuid = some ending)
      (apart : ending.joined? = none) (housed : c.homeless uuid = false) :
      Resolution limit path uuid c ((some <$> settle uuid r none) (c.countCuts ending.cuts))
  | barred {path uuid c c₁ r ending p} (absent : c.placement? uuid = none)
      (reserved : c.reservation? uuid = some r)
      (ends : c.ending? (limit - path.depth) path.above uuid = some ending)
      (apart : ending.joined? = none) (homeless : c.homeless uuid = true)
      (waits : 0 ∈ path.above)
      (made : createTrack .global r (c.countCuts ending.cuts) = .ok p c₁) :
      Resolution limit path uuid c ((some <$> record uuid r p none) (c₁.count .loop))
  | sheltered {path uuid c c₁ c₂ r ending p q} (absent : c.placement? uuid = none)
      (reserved : c.reservation? uuid = some r)
      (ends : c.ending? (limit - path.depth) path.above uuid = some ending)
      (apart : ending.joined? = none) (homeless : c.homeless uuid = true)
      (free : 0 ∉ path.above)
      (made : createTrack .global r (c.countCuts ending.cuts) = .ok p c₁)
      (default : Resolution limit (path.enterRoot uuid) 0 c₁ (.ok (some q) c₂)) :
      Resolution limit path uuid c ((some <$> record uuid r p (some q)) c₂)
  | shelterMade {path uuid c c₁ r ending p} (absent : c.placement? uuid = none)
      (reserved : c.reservation? uuid = some r)
      (ends : c.ending? (limit - path.depth) path.above uuid = some ending)
      (apart : ending.joined? = none) (homeless : c.homeless uuid = true)
      (free : 0 ∉ path.above)
      (made : createTrack .global r (c.countCuts ending.cuts) = .ok p c₁)
      (absent₀ : c₁.placement? 0 = none) (unreserved₀ : c₁.reservation? 0 = none) :
      Resolution limit path uuid c
        ((some <$> (makeDefault >>= fun q => record uuid r p (some q))) c₁)
  | shelterFailed {path uuid c c₁ c₂ r ending p e} (absent : c.placement? uuid = none)
      (reserved : c.reservation? uuid = some r)
      (ends : c.ending? (limit - path.depth) path.above uuid = some ending)
      (apart : ending.joined? = none) (homeless : c.homeless uuid = true)
      (free : 0 ∉ path.above)
      (made : createTrack .global r (c.countCuts ending.cuts) = .ok p c₁)
      (default : Resolution limit (path.enterRoot uuid) 0 c₁ (.error e c₂)) :
      Resolution limit path uuid c (.error e c₂)

theorem Resolution.of_none {limit : Nat} {path : Trail} {uuid : Uuid}
    (h : Resolution limit path uuid c (.ok none c₁)) :
    c.placement? uuid = none ∧ c.reservation? uuid = none ∧ c₁ = c := by
  have settled {x : Act β Placement} {c₀ : Catalog β} (hx : (some <$> x) c₀ = .ok none c₁) :
      False := by
    cases hr : x c₀ with
    | ok p c₂ => simp [Act.map_ok hr] at hx
    | error e c₂ => simp [Act.map_error hr] at hx
  generalize ho : EStateM.Result.ok none c₁ = outcome at h
  cases h with
  | known => cases ho
  | unannounced absent unreserved =>
    cases ho
    exact ⟨absent, unreserved, rfl⟩
  | linkFailed => cases ho
  | shelterFailed => cases ho
  | _ => exact (settled ho.symm).elim

section Cases
variable {limit : Nat} {path : Trail} {uuid : Uuid} {r : Reservation}

theorem fallbackParent_of_mem (nonzero : uuid ≠ 0) (waits : 0 ∈ path.above) :
    fallbackParent limit path uuid (nested limit path uuid) =
      (dropLink .loop : Act β (Option Placement)) := by
  unfold fallbackParent
  rw [dif_neg nonzero, dif_pos (Trail.contains_iff_mem_above.mpr waits)]

theorem fallbackParent_of_not_mem (nonzero : uuid ≠ 0) (free : 0 ∉ path.above) :
    fallbackParent limit path uuid (nested limit path uuid) =
      (some <$> defaultTrack (resolve limit (path.enterRoot uuid) 0) :
        Act β (Option Placement)) := by
  unfold fallbackParent
  rw [dif_neg nonzero, dif_neg (mt Trail.contains_iff_mem_above.mp free)]

theorem resolution_of_cut {ending : Ending} (absent : c.placement? uuid = none)
    (reserved : c.reservation? uuid = some r)
    (ends : c.ending? (limit - path.depth) path.above uuid = some ending)
    (apart : ending.joined? = none)
    (default : uuid ≠ 0 → 0 ∉ path.above → ∀ c₁ : Catalog β,
      Resolution limit (path.enterRoot uuid) 0 c₁ (resolve limit (path.enterRoot uuid) 0 c₁)) :
    Resolution limit path uuid c
      ((some <$> afterLink limit path uuid r (nested limit path uuid) none)
        (c.countCuts ending.cuts)) := by
  unfold afterLink
  cases homeless : c.homeless uuid with
  | false =>
    rw [if_pos ((homeless_eq_false_iff reserved).mp homeless)]
    exact .housed absent reserved ends apart homeless
  | true =>
  obtain ⟨pid, nonzero⟩ := (homeless_iff reserved).mp homeless
  rw [if_neg (by simp [pid, nonzero])]
  obtain ⟨p, c₁, made⟩ := createTrack_ok .global r (c.countCuts ending.cuts)
  simp only [Functor.map, EStateM.map, Act.bind_ok made]
  by_cases waits : 0 ∈ path.above
  · rw [fallbackParent_of_mem nonzero waits, Act.bind_ok (dropLink_apply .loop c₁)]
    exact .barred absent reserved ends apart homeless waits made
  rw [fallbackParent_of_not_mem nonzero waits]
  have below := default nonzero waits c₁
  cases hd : (resolve limit (path.enterRoot uuid) 0 : Act β (Option Placement)) c₁ with
  | error e c₂ =>
    rw [hd] at below
    rw [Act.bind_error (Act.map_error (defaultTrack_of_error hd) some)]
    exact .shelterFailed absent reserved ends apart homeless waits made below
  | ok o c₂ =>
  rw [hd] at below
  cases o with
  | some q =>
    rw [Act.bind_ok (Act.map_ok (defaultTrack_of_found hd) some)]
    exact .sheltered absent reserved ends apart homeless waits made below
  | none =>
    obtain ⟨absent₀, unreserved₀, rfl⟩ := below.of_none
    have hmake : (some <$> defaultTrack (resolve limit (path.enterRoot uuid) 0) >>=
        fun q => record uuid r p q) c₂ =
        (makeDefault >>= fun q => record uuid r p (some q)) c₂ := by
      rw [bind_map_left]
      simp only [bind, EStateM.bind, defaultTrack_of_none hd]
    rw [hmake]
    exact .shelterMade absent reserved ends apart homeless waits made absent₀ unreserved₀

theorem resolution_of_open (level : path.Level) (absent : c.placement? uuid = none)
    (reserved : c.reservation? uuid = some r)
    (opens : c.ending? (limit - path.depth) path.above uuid = none)
    (above : Resolution limit (path.enter uuid) r.parent c
      (resolve limit (path.enter uuid) r.parent c)) :
    Resolution limit path uuid c
      ((some <$> (declaredLink limit path uuid r (nested limit path uuid) >>=
        afterLink limit path uuid r (nested limit path uuid))) c) := by
  have link := declaredLink_of_open level reserved fun ending h => by
    rw [opens] at h
    cases h
  have hreserved := (ending?_eq_none opens).2.2.2.2
  rw [declared_of_reservation? reserved] at hreserved
  cases ho : (resolve limit (path.enter uuid) r.parent : Act β (Option Placement)) c with
  | error e c₁ =>
    rw [ho, ← declared_of_reservation? reserved] at above
    rw [Act.map_error (Act.bind_error (by rw [link, Act.bind_error ho]) _)]
    exact .linkFailed absent reserved opens above
  | ok o c₁ =>
  rw [ho] at above
  cases o with
  | none =>
    rw [above.of_none.2.1] at hreserved
    cases hreserved
  | some q =>
    rw [← declared_of_reservation? reserved] at above
    have hlink : declaredLink limit path uuid r (nested limit path uuid) c =
        .ok (some q) c₁ := by
      rw [link, Act.bind_ok ho]
      rfl
    simp only [Functor.map, EStateM.map, Act.bind_ok hlink]
    exact .linked absent reserved opens above

theorem resolution_of_join (level : path.Level) {parent : Uuid}
    (absent : c.placement? uuid = none) (reserved : c.reservation? uuid = some r)
    (ends : c.ending? (limit - path.depth) path.above uuid = some (.join parent)) :
    Resolution limit path uuid c
      ((some <$> (declaredLink limit path uuid r (nested limit path uuid) >>=
        afterLink limit path uuid r (nested limit path uuid))) c) := by
  obtain ⟨hparent, -, -, hplaced⟩ := ending?_eq_join ends
  obtain ⟨q, hq⟩ := Option.isSome_iff_exists.mp hplaced
  rw [declared_of_reservation? reserved] at hparent
  have hlink : declaredLink limit path uuid r (nested limit path uuid) c = .ok (some q) c := by
    rw [declaredLink_of_open level reserved (fun ending h => by
        rw [ends] at h
        cases h
        rfl),
      Act.bind_ok (resolve_of_placement? (hparent ▸ hq) _ _)]
    rfl
  simp only [Functor.map, EStateM.map, Act.bind_ok hlink]
  exact .joined absent reserved ends hq

end Cases

/-- Every call of `resolve` goes in one of these ways. -/
theorem resolution (limit : Nat) (path : Trail) (level : path.Level) (uuid : Uuid)
    (c : Catalog β) : Resolution limit path uuid c (resolve limit path uuid c) := by
  induction hn : path.allowance limit uuid using Nat.strongRecOn generalizing path uuid c with
  | _ n ih =>
  subst hn
  rw [resolve_eq_resolveWith]
  unfold resolveWith
  rw [Act.bind_ok (Act.get_ok c)]
  cases absent : c.placement? uuid with
  | some p => exact .known absent
  | none =>
  simp only [Act.bind_ok (Act.get_ok c)]
  cases reserved : c.reservation? uuid with
  | none => exact .unannounced absent reserved
  | some r =>
  simp only [materialize_eq_bind]
  cases ends : c.ending? (limit - path.depth) path.above uuid with
  | none =>
    apply resolution_of_open level absent reserved ends
    have hroom := (ending?_eq_none ends).2.1
    have hdepth := level.depth_enter uuid
    exact ih _ (Trail.allowance_enter (by omega) r.parent) _ (level.enter uuid) _ c rfl
  | some ending =>
  cases apart : ending.joined? with
  | some parent =>
    cases ending <;> cases apart
    exact resolution_of_join level absent reserved ends
  | none =>
    simp only [Functor.map, EStateM.map,
      Act.bind_ok (declaredLink_of_cut level reserved ends apart)]
    apply resolution_of_cut absent reserved ends apart
    intro nonzero free c₁
    have hfree : path.contains 0 = false := by
      simpa using mt Trail.contains_iff_mem_above.mp free
    exact ih _ (Trail.allowance_enterRoot limit hfree nonzero) _
      (Trail.level_enterRoot path uuid) _ c₁ rfl

section Unique
variable {limit : Nat} {path : Trail} {uuid : Uuid}

omit [TrackSink β] [LifetimeSource β] in
theorem not_apart_of_join {room : Nat} {above : List Uuid} {v : Uuid} {ending : Ending}
    (joins : c.ending? room above uuid = some (.join v))
    (ends : c.ending? room above uuid = some ending) : ending.joined? ≠ none := by
  rw [joins] at ends
  cases ends
  exact Option.some_ne_none v

omit [LifetimeSource β] in
theorem same_row {room : Nat} {above : List Uuid} {r r' : Reservation} {ending ending' : Ending}
    {p p' : Placement} {c₁ c₁' : Catalog β} (reserved : c.reservation? uuid = some r)
    (reserved' : c.reservation? uuid = some r') (ends : c.ending? room above uuid = some ending)
    (ends' : c.ending? room above uuid = some ending')
    (made : createTrack .global r (c.countCuts ending.cuts) = .ok p c₁)
    (made' : createTrack .global r' (c.countCuts ending'.cuts) = .ok p' c₁') :
    r' = r ∧ p' = p ∧ c₁' = c₁ := by
  rw [reserved] at reserved'
  rw [ends] at ends'
  cases reserved'
  cases ends'
  rw [made] at made'
  cases made'
  exact ⟨rfl, rfl, rfl⟩

theorem Resolution.of_unannounced {x : EStateM.Result Fault (Catalog β) (Option Placement)}
    (h : Resolution limit path uuid c x) (absent : c.placement? uuid = none)
    (unreserved : c.reservation? uuid = none) : x = .ok none c := by
  cases h <;> simp_all

/-- There is one way in which a call goes. -/
theorem Resolution.unique {x y : EStateM.Result Fault (Catalog β) (Option Placement)}
    (h : Resolution limit path uuid c x) (h' : Resolution limit path uuid c y) : x = y := by
  -- The conditions of the constructors exclude each other, but for those that depend on how the
  -- call below went; there, the induction says that it went in one way.
  induction h generalizing y with
  | known placed => cases h' <;> simp_all
  | unannounced absent unreserved => cases h' <;> simp_all
  | joined absent reserved ends above =>
    cases h' with
    | housed _ _ ends' apart' | barred _ _ ends' apart' | sheltered _ _ ends' apart'
    | shelterMade _ _ ends' apart' | shelterFailed _ _ ends' apart' =>
      exact absurd apart' (not_apart_of_join ends ends')
    | _ => simp_all
  | linked absent reserved opens above ih =>
    cases h' with
    | linked _ reserved' _ above' =>
      cases ih above'
      simp_all
    | linkFailed _ _ _ above' => cases ih above'
    | _ => simp_all
  | linkFailed absent reserved opens above ih =>
    cases h' with
    | linked _ _ _ above' => cases ih above'
    | linkFailed _ _ _ above' => exact ih above' ▸ rfl
    | _ => simp_all
  | housed absent reserved ends apart housed =>
    cases h' with
    | joined _ _ ends' => exact absurd apart (not_apart_of_join ends' ends)
    | _ => simp_all
  | barred absent reserved ends apart homeless waits made =>
    cases h' with
    | joined _ _ ends' => exact absurd apart (not_apart_of_join ends' ends)
    | _ => simp_all
  | sheltered absent reserved ends apart homeless free made default ih =>
    cases h' with
    | joined _ _ ends' => exact absurd apart (not_apart_of_join ends' ends)
    | sheltered _ reserved' ends' _ _ _ made' default' =>
      obtain ⟨rfl, rfl, rfl⟩ := same_row reserved reserved' ends ends' made made'
      cases ih default'
      rfl
    | shelterMade _ reserved' ends' _ _ _ made' absent₀ unreserved₀ =>
      obtain ⟨-, -, rfl⟩ := same_row reserved reserved' ends ends' made made'
      cases ih (.unannounced absent₀ unreserved₀)
    | shelterFailed _ reserved' ends' _ _ _ made' default' =>
      obtain ⟨-, -, rfl⟩ := same_row reserved reserved' ends ends' made made'
      cases ih default'
    | _ => simp_all
  | shelterMade absent reserved ends apart homeless free made absent₀ unreserved₀ =>
    cases h' with
    | joined _ _ ends' => exact absurd apart (not_apart_of_join ends' ends)
    | sheltered _ reserved' ends' _ _ _ made' default' =>
      obtain ⟨-, -, rfl⟩ := same_row reserved reserved' ends ends' made made'
      cases default'.of_unannounced absent₀ unreserved₀
    | shelterMade _ reserved' ends' _ _ _ made' =>
      obtain ⟨rfl, rfl, rfl⟩ := same_row reserved reserved' ends ends' made made'
      rfl
    | shelterFailed _ reserved' ends' _ _ _ made' default' =>
      obtain ⟨-, -, rfl⟩ := same_row reserved reserved' ends ends' made made'
      cases default'.of_unannounced absent₀ unreserved₀
    | _ => simp_all
  | shelterFailed absent reserved ends apart homeless free made default ih =>
    cases h' with
    | joined _ _ ends' => exact absurd apart (not_apart_of_join ends' ends)
    | sheltered _ reserved' ends' _ _ _ made' default' =>
      obtain ⟨-, -, rfl⟩ := same_row reserved reserved' ends ends' made made'
      cases ih default'
    | shelterMade _ reserved' ends' _ _ _ made' absent₀ unreserved₀ =>
      obtain ⟨-, -, rfl⟩ := same_row reserved reserved' ends ends' made made'
      cases ih (.unannounced absent₀ unreserved₀)
    | shelterFailed _ reserved' ends' _ _ _ made' default' =>
      obtain ⟨-, -, rfl⟩ := same_row reserved reserved' ends ends' made made'
      exact ih default' ▸ rfl
    | _ => simp_all

theorem Resolution.eq_resolve {x : EStateM.Result Fault (Catalog β) (Option Placement)}
    (h : Resolution limit path uuid c x) (level : path.Level) : resolve limit path uuid c = x :=
  (resolution limit path level uuid c).unique h

end Unique

def findOrMake (uuid : Uuid) (make : Reservation → Act β (Option Placement)) :
    Act β (Option Placement) := do
  match (← get).placement? uuid with
  | some placement => return some placement
  | none =>
    match (← get).reservation? uuid with
    | some reservation => make reservation
    | none => return none

/-- Properties of acts that hold of one after the other, and of the single steps to a row. -/
structure Ground (P : ∀ {α : Type}, Act β α → Prop) : Prop where
  pure {α : Type} (a : α) : P (pure a : Act β α)
  bind {α γ : Type} {x : Act β α} {f : α → Act β γ} : P x → (∀ a, P (f a)) → P (x >>= f)
  count (a : Anomaly) : P (modify (count a) : Act β PUnit)
  createRow (scope : Scope) (flavor : Flavor) :
    P (Act.onBackend (TrackSink.createTrack scope flavor) : Act β TrackId)
  threadRow (utid : Utid) : P (Act.onBackend (TrackSink.threadTrack utid) : Act β TrackId)
  processRow (upid : Upid) : P (Act.onBackend (TrackSink.processTrack upid) : Act β TrackId)
  claimThread (uuid : Uuid) (pid : Pid) (tid : Tid) :
    P (Act.claim (Owners.claimThread uuid pid tid) : Act β (Claim .thread))
  claimProcess (uuid : Uuid) (pid : Pid) :
    P (Act.claim (Owners.claimProcess uuid pid) : Act β (Claim .process))

/-- Properties of acts that hold of a resolution, since they hold of its parts. -/
structure Closed (P : ∀ {α : Type}, Act β α → Prop) : Prop extends Ground P where
  record (uuid : Uuid) (r : Reservation) (placement : Placement) (parent : Option Placement) :
    P (record uuid r placement parent : Act β Placement)
  makeDefault : P (makeDefault : Act β Placement)
  findOrMake (uuid : Uuid) {make : Reservation → Act β (Option Placement)}
    (still : ∀ r, make r = make { r with firstSeen := none, total := 0 }) :
    (∀ r, P (make r)) → P (findOrMake uuid make)

section Closed
variable {P : ∀ {α : Type}, Act β α → Prop} {α : Type}

theorem Ground.map {γ : Type} (h : Ground P) {x : Act β α} (hx : P x) (f : α → γ) :
    P (f <$> x) := by
  rw [map_eq_pure_bind]
  exact h.bind hx fun a => h.pure (f a)

theorem Ground.dropLink (h : Ground P) (a : Anomaly) :
    P (dropLink a : Act β (Option Placement)) :=
  h.bind (h.count a) fun _ => h.pure none

theorem Ground.createTrack (h : Ground P) (scope : Scope) (r : Reservation) :
    P (createTrack scope r : Act β Placement) :=
  h.bind (h.createRow _ _) fun track =>
    h.pure (⟨track, scope, .ofIsCounter r.isCounter⟩ : Placement)

theorem Ground.claimed (h : Ground P) (reused : Bool) (a : Anomaly) {row : Act β TrackId}
    (hr : P row) (place : TrackId → Placement) :
    P (do
      if reused then
        modify (Catalog.count a)
      let track ← row
      return place track) := by
  have placed := h.bind hr fun track => h.pure (place track)
  cases reused with
  | false => exact placed
  | true => exact h.bind (h.count a) fun _ => placed

theorem Ground.situate (h : Ground P) (uuid : Uuid) (r : Reservation)
    (parent : Option Placement) : P (situate uuid r parent : Act β Placement) := by
  unfold Catalog.situate
  split
  · exact h.bind (h.claimThread _ _ _) fun claim =>
      h.claimed claim.reused .tidReuse (h.threadRow claim.entity) fun track =>
        ⟨track, .thread claim.entity, .slice⟩
  · exact h.bind (h.claimProcess _ _) fun claim =>
      h.claimed claim.reused .pidReuse (h.processRow claim.entity) fun track =>
        ⟨track, .process claim.entity, .slice⟩
  · exact h.createTrack _ r

theorem Closed.defaultTrack (h : Closed P) {found : Act β (Option Placement)} (hx : P found) :
    P (defaultTrack found) := by
  refine h.bind hx fun found => ?_
  cases found with
  | some placement => exact h.pure placement
  | none => exact h.makeDefault

theorem Closed.declaredLink (h : Closed P) {limit : Nat} {path : Trail} {uuid : Uuid}
    {r : Reservation}
    {below : Below β limit path uuid} (hb : ∀ next longer less, P (below next longer less)) :
    P (declaredLink limit path uuid r below) := by
  unfold Catalog.declaredLink
  split
  · exact h.pure none
  unfold declaredParent
  split
  · split
    · exact h.dropLink .loop
    · refine h.bind (hb _ _ _) fun found => ?_
      cases found with
      | some placement => exact h.pure _
      | none => exact h.dropLink .unknownParent
  · exact h.dropLink .tooManyAncestors

theorem Closed.afterLink (h : Closed P) {limit : Nat} {path : Trail} {uuid : Uuid} {r : Reservation}
    {below : Below β limit path uuid} (hb : ∀ next longer less, P (below next longer less))
    (declared : Option Placement) : P (afterLink limit path uuid r below declared) := by
  have settled (parent : Option Placement) : P (settle uuid r parent : Act β Placement) :=
    h.bind (h.situate uuid r parent) fun placement => h.record uuid r placement parent
  have fallback : P (fallbackParent limit path uuid below) := by
    unfold fallbackParent
    split
    · exact h.pure none
    split
    · exact h.dropLink .loop
    · exact h.map (h.defaultTrack (hb _ _ _)) some
  cases declared with
  | some parent => exact settled (some parent)
  | none =>
    unfold Catalog.afterLink
    dsimp only
    split
    · exact settled none
    · exact h.bind (h.createTrack _ _) fun placement =>
        h.bind fallback fun parent => h.record uuid r placement parent

theorem Closed.resolve (h : Closed P) (limit : Nat) (path : Trail) (uuid : Uuid) :
    P (resolve limit path uuid : Act β (Option Placement)) := by
  -- The induction over all nested resolutions, once and for all: each nested one has less
  -- allowance.
  induction hn : path.allowance limit uuid using Nat.strongRecOn generalizing path uuid with
  | _ n ih =>
  subst hn
  rw [resolve_eq_resolveWith]
  refine h.findOrMake uuid (fun r => rfl) fun r => h.map ?_ some
  rw [materialize_eq_bind]
  exact h.bind (h.declaredLink fun next longer less => ih _ less _ _ rfl)
    (h.afterLink fun next longer less => ih _ less _ _ rfl)

end Closed

end Catalog
end TraceTracks
