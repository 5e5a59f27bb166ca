import TraceTracks.Proofs.Resolution

/-! Resolution one step at a time. What a resolution nests is a stack of frames here, each with the
guard of its entry on the path, so that the path and the stack can be looked at between any two
steps. The machine stops with the answer that looking the track up gives. -/
namespace TraceTracks

inductive Query
  | track (uuid : Uuid) (event : StringId)
  | default
  deriving DecidableEq

def Query.uuid : Query → Uuid
  | .track uuid _ => uuid
  | .default => 0

namespace Machine

/-- A track that waits for another one: for its declared parent or, once its row was made, for the
default track. -/
inductive Frame
  | link (uuid : Uuid) (reservation : Reservation) (guard : Trail.Guard)
  | shelter (uuid : Uuid) (reservation : Reservation) (placement : Placement)
    (guard : Trail.Guard)
  deriving DecidableEq

namespace Frame

def uuid : Frame → Uuid
  | link uuid _ _ => uuid
  | shelter uuid _ _ _ => uuid

def guard : Frame → Trail.Guard
  | link _ _ guard => guard
  | shelter _ _ _ guard => guard

def isShelter : Frame → Bool
  | link _ _ _ => false
  | shelter _ _ _ _ => true

end Frame

inductive Task
  | resolve (uuid : Uuid)
  | make (uuid : Uuid) (reservation : Reservation)
  | follow (uuid : Uuid) (reservation : Reservation) (guard : Trail.Guard)
  | place (uuid : Uuid) (reservation : Reservation) (parent : Option Placement)
  | shelter (uuid : Uuid) (reservation : Reservation) (placement : Placement)
  | attach (uuid : Uuid) (reservation : Reservation) (placement : Placement)
    (parent : Option Placement)
  | give (found : Option Placement)
  | answered (id : Option TrackId)
  | failed (fault : Fault)
  deriving DecidableEq

def Task.making? : Task → Option Uuid
  | make uuid _ => some uuid
  | follow uuid _ _ => some uuid
  | place uuid _ _ => some uuid
  | shelter uuid _ _ => some uuid
  | attach uuid _ _ _ => some uuid
  | _ => none

end Machine

structure Machine (β : Type) where
  catalog : Catalog β
  path : Trail
  frames : List Machine.Frame
  task : Machine.Task
  begun : List Uuid

namespace Machine
variable {β α γ : Type}

/-- The uuids whose tracks are begun and not finished, innermost first. -/
def making (m : Machine β) : List Uuid := m.task.making?.toList ++ m.frames.map Frame.uuid

def act (m : Machine β) (x : Act β α) (next : α → Task) : Machine β :=
  match x m.catalog with
  | .ok a c => { m with catalog := c, task := next a }
  | .error e c => { m with catalog := c, task := .failed e }

def begin (m : Machine β) (uuid : Uuid) (r : Reservation) : Machine β :=
  { m with task := .make uuid r, begun := uuid :: m.begun }

variable [TrackSink β]

def beginDefault (m : Machine β) : Machine β :=
  let r := (Descriptor.child 0 m.catalog.vocabulary.defaultTrackName).reservation
  { m with catalog := m.catalog.reserve 0 r }.begin 0 r

def cut (m : Machine β) (a : Anomaly) (uuid : Uuid) (r : Reservation) (guard : Trail.Guard) :
    Machine β :=
  { m with catalog := m.catalog.count a, path := m.path.drop guard, task := .place uuid r none }

def close : Query → Placement → Act β (Option TrackId)
  | .track uuid event, placement => do
    if !StringId.isNull event && ((← get).reservation? uuid).any (!·.hasFixedName) then
      Catalog.nameIfUnnamed placement.track event
    return some placement.track
  | .default, placement => return some placement.track

def receive (q : Query) (m : Machine β) (found : Option Placement) : Machine β :=
  match m.frames, found with
  | .link uuid r guard :: frames, some _ =>
    { m with path := m.path.drop guard, frames := frames, task := .place uuid r found }
  | .link uuid r guard :: frames, none =>
    { m with frames := frames }.cut .unknownParent uuid r guard
  | .shelter uuid r placement guard :: frames, some _ =>
    { m with path := m.path.drop guard, frames := frames, task := .attach uuid r placement found }
  | .shelter _ _ _ _ :: _, none => m.beginDefault
  | [], some placement => m.act (close q placement) .answered
  | [], none =>
    match q with
    | .track _ _ => { m with task := .answered none }
    | .default => m.beginDefault

variable [LifetimeSource β]

def start (c : Catalog β) (q : Query) : Machine β := ⟨c, .empty, [], .resolve q.uuid, []⟩

def step (limit : Nat) (q : Query) (m : Machine β) : Machine β :=
  match m.task with
  | .resolve uuid =>
    match m.catalog.placement? uuid, m.catalog.reservation? uuid with
    | some placement, _ => { m with task := .give (some placement) }
    | none, some r => m.begin uuid r
    | none, none => { m with task := .give none }
  | .make uuid r =>
    if r.parent = 0 then { m with task := .place uuid r none }
    else { m with path := m.path.enter uuid, task := .follow uuid r m.path.guard }
  | .follow uuid r guard =>
    if m.path.depth ≤ limit then
      if m.path.contains r.parent then m.cut .loop uuid r guard
      else { m with frames := .link uuid r guard :: m.frames, task := .resolve r.parent }
    else m.cut .tooManyAncestors uuid r guard
  | .place uuid r parent =>
    if parent.isSome ∨ r.pid.isSome ∨ uuid = 0 then
      m.act (Catalog.settle uuid r parent) fun placement => .give (some placement)
    else m.act (Catalog.createTrack .global r) (.shelter uuid r)
  | .shelter uuid r placement =>
    if m.path.contains 0 then
      { m with catalog := m.catalog.count .loop, task := .attach uuid r placement none }
    else
      { m with
        path := m.path.enterRoot uuid
        frames := .shelter uuid r placement m.path.guard :: m.frames
        task := .resolve 0 }
  | .attach uuid r placement parent =>
    m.act (Catalog.record uuid r placement parent) fun placement => .give (some placement)
  | .give found => m.receive q found
  | .answered _ => m
  | .failed _ =>
    match m.frames with
    | [] => m
    | frame :: frames => { m with path := m.path.drop frame.guard, frames := frames }

def after (limit : Nat) (q : Query) : Nat → Machine β → Machine β
  | 0, m => m
  | n + 1, m => after limit q n (m.step limit q)

def outcome? (m : Machine β) : Option (EStateM.Result Fault (Catalog β) (Option TrackId)) :=
  match m.task, m.frames with
  | .answered id, [] => some (.ok id m.catalog)
  | .failed e, [] => some (.error e m.catalog)
  | _, _ => none

end Machine

def Query.answer {β : Type} [TrackSink β] [LifetimeSource β] :
    Query → Act β (Option TrackId)
  | .track uuid event => Catalog.track? uuid event
  | .default => some <$> Catalog.defaultTrackId

namespace Machine
variable {β α γ : Type} [TrackSink β] [LifetimeSource β] {limit : Nat} {q : Query}

theorem after_add (n k : Nat) (m : Machine β) :
    after limit q (n + k) m = after limit q k (after limit q n m) := by
  induction n generalizing m with
  | zero => rw [Nat.zero_add, after]
  | succ n ih => rw [Nat.succ_add, after, ih, after]

theorem after_of_outcome? {m : Machine β} (h : m.outcome?.isSome) (n : Nat) :
    after limit q n m = m := by
  have still : m.step limit q = m := by
    unfold outcome? at h
    unfold step
    split at h
    next task _ => rw [task]
    next task frames =>
      rw [task]
      dsimp only
      rw [frames]
    next => cases h
  induction n with
  | zero => rfl
  | succ n ih => rw [after, still, ih]

def land (path : Trail) (frames : List Frame) (next : α → Task) (begun : List Uuid) :
    EStateM.Result Fault (Catalog β) α → Machine β
  | .ok a c => ⟨c, path, frames, next a, begun⟩
  | .error e c => ⟨c, path, frames, .failed e, begun⟩

/-- The machine gets to where an act with this result leaves it. -/
def Lands (limit : Nat) (q : Query) (m : Machine β) (path : Trail) (frames : List Frame)
    (next : α → Task) (result : EStateM.Result Fault (Catalog β) α) : Prop :=
  ∃ n begun, after limit q n m = land path frames next begun result

section Lands
variable {m : Machine β} {path : Trail} {frames : List Frame} {c : Catalog β}
  {begun : List Uuid} {next : α → Task} {last : γ → Task} {x : Act β α} {f : α → Act β γ}

theorem Lands.of_step {result : EStateM.Result Fault (Catalog β) α}
    (h : Lands limit q (m.step limit q) path frames next result) :
    Lands limit q m path frames next result := by
  obtain ⟨n, begun, arrives⟩ := h
  exact ⟨n + 1, begun, arrives⟩

theorem lands_self (a : α) :
    Lands limit q ⟨c, path, frames, next a, begun⟩ path frames next (.ok a c) :=
  ⟨0, begun, rfl⟩

theorem lands_act {task : Task} :
    Lands limit q ((⟨c, path, frames, task, begun⟩ : Machine β).act x next) path frames next
      (x c) := by
  refine ⟨0, begun, ?_⟩
  rw [after, act]
  dsimp only
  cases x c <;> rfl

theorem Lands.bind (first : Lands limit q m path frames next (x c))
    (rest : ∀ a c' begun, x c = .ok a c' →
      Lands limit q ⟨c', path, frames, next a, begun⟩ path frames last (f a c')) :
    Lands limit q m path frames last ((x >>= f) c) := by
  obtain ⟨n, begun, arrives⟩ := first
  cases h : x c with
  | ok a c' =>
    obtain ⟨k, begun', arrives'⟩ := rest a c' begun h
    rw [Act.bind_ok h]
    refine ⟨n + k, begun', ?_⟩
    rw [after_add, arrives, h]
    exact arrives'
  | error e c' =>
    rw [Act.bind_error h]
    exact ⟨n, begun, by rw [arrives, h]; rfl⟩

theorem Lands.map {g : α → γ} (h : Lands limit q m path frames (fun a => last (g a)) (x c)) :
    Lands limit q m path frames last ((g <$> x) c) := by
  obtain ⟨n, begun, arrives⟩ := h
  refine ⟨n, begun, ?_⟩
  rw [arrives]
  cases h : x c with
  | ok a c' => rw [Act.map_ok h]; rfl
  | error e c' => rw [Act.map_error h]; rfl

theorem Lands.pop_link {uuid : Uuid} {r : Reservation} {x : Act β (Option Placement)}
    (h : Lands limit q m (path.enter uuid) (.link uuid r path.guard :: frames) .give (x c)) :
    Lands limit q m path frames (.place uuid r) ((do
      match ← x with
      | some placement => return some placement
      | none => Catalog.dropLink .unknownParent) c) := by
  obtain ⟨n, begun, arrives⟩ := h
  refine ⟨n + 1, begun, ?_⟩
  rw [after_add, arrives]
  cases h : x c with
  | ok found c' =>
    rw [Act.bind_ok h]
    cases found with
    | some placement => simp [land, after, step, receive, pure, EStateM.pure]
    | none =>
      dsimp only
      rw [Catalog.dropLink_apply]
      simp [land, after, step, receive, cut]
  | error e c' =>
    rw [Act.bind_error h]
    simp [land, after, step, Frame.guard]

theorem Lands.pop_shelter {uuid : Uuid} {r : Reservation} {placement : Placement}
    {x : Act β Placement}
    (h : Lands limit q m (path.enterRoot uuid) (.shelter uuid r placement path.guard :: frames)
      (fun parent => .give (some parent)) (x c)) :
    Lands limit q m path frames (.attach uuid r placement) ((some <$> x) c) := by
  obtain ⟨n, begun, arrives⟩ := h
  refine ⟨n + 1, begun, ?_⟩
  rw [after_add, arrives]
  cases h : x c with
  | ok parent c' =>
    rw [Act.map_ok h]
    simp [land, after, step, receive]
  | error e c' =>
    rw [Act.map_error h]
    simp [land, after, step, Frame.guard]

theorem lands_beginDefault {task : Task} :
    Lands limit q (beginDefault ⟨c, path, frames, task, begun⟩) path frames
      (fun placement => .give (some placement)) (Catalog.makeDefault c) := by
  refine Lands.of_step (Lands.of_step ?_)
  have made : Catalog.makeDefault c = Catalog.settle 0
      (Descriptor.child 0 c.vocabulary.defaultTrackName).reservation none
      (c.reserve 0 (Descriptor.child 0 c.vocabulary.defaultTrackName).reservation) := rfl
  rw [made]
  exact lands_act

theorem Lands.defaultTrack {x : Act β (Option Placement)}
    (found : Lands limit q m path frames .give (x c))
    (absent : ∀ (c : Catalog β) begun, receive q ⟨c, path, frames, .give none, begun⟩ none =
      beginDefault ⟨c, path, frames, .give none, begun⟩) :
    Lands limit q m path frames (fun placement => .give (some placement))
      (Catalog.defaultTrack x c) := by
  refine found.bind ?_
  rintro (_ | placement) c' begun -
  · refine Lands.of_step ?_
    simp only [step, absent]
    exact lands_beginDefault
  · exact ⟨0, begun, rfl⟩

section Call
variable {uuid : Uuid} {r : Reservation}

theorem lands_make
    (below : (path.enter uuid).depth ≤ limit → ∀ frames begun,
      Lands limit q ⟨c, path.enter uuid, frames, .resolve r.parent, begun⟩ (path.enter uuid) frames
        .give (Catalog.resolve limit (path.enter uuid) r.parent c)) :
    Lands limit q ⟨c, path, frames, .make uuid r, begun⟩ path frames (.place uuid r)
      (Catalog.declaredLink limit path uuid r (Catalog.nested limit path uuid) c) := by
  unfold Catalog.declaredLink
  refine Lands.of_step ?_
  by_cases root : r.parent = 0
  · rw [if_pos root]
    simp only [step, if_pos root]
    exact lands_self none
  rw [if_neg root]
  simp only [step, if_neg root]
  refine Lands.of_step ?_
  unfold Catalog.declaredParent
  by_cases short : (path.enter uuid).depth ≤ limit
  · rw [dif_pos short]
    by_cases loop : (path.enter uuid).contains r.parent = true
    · rw [if_pos loop, Catalog.dropLink_apply]
      simp only [step, if_pos short, if_pos loop, cut, Trail.drop_enter]
      exact lands_self none
    · rw [if_neg loop]
      simp only [step, if_pos short, if_neg loop]
      exact (below short _ _).pop_link
  · rw [dif_neg short, Catalog.dropLink_apply]
    simp only [step, if_neg short, cut, Trail.drop_enter]
    exact lands_self none

theorem lands_shelter {placement : Placement} (nonzero : uuid ≠ 0)
    (below : path.contains 0 = false → ∀ frames begun,
      Lands limit q ⟨c, path.enterRoot uuid, frames, .resolve 0, begun⟩ (path.enterRoot uuid)
        frames .give (Catalog.resolve limit (path.enterRoot uuid) 0 c)) :
    Lands limit q ⟨c, path, frames, .shelter uuid r placement, begun⟩ path frames
      (.attach uuid r placement)
      (Catalog.fallbackParent limit path uuid (Catalog.nested limit path uuid) c) := by
  unfold Catalog.fallbackParent
  rw [dif_neg nonzero]
  refine Lands.of_step ?_
  by_cases waits : path.contains 0 = true
  · rw [dif_pos waits, Catalog.dropLink_apply]
    simp only [step, if_pos waits]
    exact lands_self none
  rw [dif_neg waits]
  simp only [step, if_neg waits]
  have found := below (by simpa using waits)
  exact Lands.pop_shelter ((found _ _).defaultTrack fun _ _ => rfl)

theorem lands_place (declared : Option Placement)
    (below : uuid ≠ 0 → path.contains 0 = false → ∀ (c : Catalog β) frames begun,
      Lands limit q ⟨c, path.enterRoot uuid, frames, .resolve 0, begun⟩ (path.enterRoot uuid)
        frames .give (Catalog.resolve limit (path.enterRoot uuid) 0 c)) :
    Lands limit q ⟨c, path, frames, .place uuid r declared, begun⟩ path frames
      (fun placement => .give (some placement))
      (Catalog.afterLink limit path uuid r (Catalog.nested limit path uuid) declared c) := by
  unfold Catalog.afterLink
  refine Lands.of_step ?_
  cases declared with
  | some parent =>
    simp only [step, Option.isSome_some, true_or, if_true]
    exact lands_act
  | none =>
  dsimp only
  by_cases housed : r.pid.isSome ∨ uuid = 0
  · simp only [step, Option.isSome_none, Bool.false_eq_true, false_or, if_pos housed]
    exact lands_act
  have nonzero : uuid ≠ 0 := fun h => housed (.inr h)
  simp only [step, Option.isSome_none, Bool.false_eq_true, false_or, if_neg housed]
  refine lands_act.bind fun placement c₁ begun _ => ?_
  refine (lands_shelter nonzero fun free => below nonzero free c₁).bind fun parent c₂ begun _ => ?_
  exact Lands.of_step lands_act

end Call

/-- The machine resolves as the catalog does, and comes back to the path and the frames that it set
out from. -/
theorem lands_resolve (path : Trail) (uuid : Uuid) (c : Catalog β) (frames : List Frame)
    (begun : List Uuid) :
    Lands limit q ⟨c, path, frames, .resolve uuid, begun⟩ path frames .give
      (Catalog.resolve limit path uuid c) := by
  induction hn : path.allowance limit uuid using Nat.strongRecOn
    generalizing path uuid c frames begun with
  | _ n ih =>
  subst hn
  rw [Catalog.resolve_eq_resolveWith]
  unfold Catalog.resolveWith
  rw [Act.bind_ok (Act.get_ok c)]
  refine Lands.of_step ?_
  cases placed : c.placement? uuid with
  | some placement =>
    simp only [step, placed]
    exact lands_self (some placement)
  | none =>
  dsimp only
  rw [Act.bind_ok (Act.get_ok c)]
  cases reserved : c.reservation? uuid with
  | none =>
    simp only [step, placed, reserved]
    exact lands_self none
  | some r =>
  simp only [step, placed, reserved, begin, Catalog.materialize_eq_bind]
  refine Lands.map ((lands_make fun short frames begun => ?_).bind fun declared c₁ begun _ => ?_)
  · exact ih _ (Trail.allowance_enter short r.parent) _ _ c frames begun rfl
  · refine lands_place declared fun nonzero free c₂ frames begun => ?_
    exact ih _ (Trail.allowance_enterRoot limit free nonzero) _ _ c₂ frames begun rfl

end Lands

theorem halts (c : Catalog β) (q : Query) :
    ∃ n, (after c.settings.maxAncestors q n (start c q)).outcome? = some (q.answer c) := by
  have finish {result : EStateM.Result Fault (Catalog β) (Option TrackId)}
      (h : Lands c.settings.maxAncestors q (start c q) .empty [] .answered result) :
      ∃ n, (after c.settings.maxAncestors q n (start c q)).outcome? = some result := by
    obtain ⟨n, begun, arrives⟩ := h
    refine ⟨n, ?_⟩
    rw [arrives]
    cases result <;> rfl
  apply finish
  have resolved : Lands c.settings.maxAncestors q (start c q) .empty [] .give
      (Catalog.resolve c.settings.maxAncestors .empty q.uuid c) :=
    lands_resolve .empty q.uuid c [] []
  cases q with
  | track uuid event =>
    have answer : Query.answer (.track uuid event) c =
        (Catalog.resolve c.settings.maxAncestors .empty uuid >>= fun found =>
          found.elim (pure none) (close (.track uuid event)) : Act β (Option TrackId)) c := by
      simp only [Query.answer, Catalog.track?]
      rw [Act.bind_ok (Act.get_ok c)]
      refine congrArg (fun f => (_ >>= f : Act β (Option TrackId)) c) (funext fun found => ?_)
      cases found <;> rfl
    rw [answer]
    refine resolved.bind ?_
    rintro (_ | placement) c₁ begun -
    · refine Lands.of_step ?_
      exact lands_self none
    · exact Lands.of_step lands_act
  | default =>
    refine Lands.map ?_
    unfold Catalog.defaultTrackId
    rw [Act.bind_ok (Act.get_ok c)]
    refine (resolved.defaultTrack fun _ _ => rfl).bind fun placement c₁ begun _ => ?_
    exact Lands.of_step ⟨0, begun, rfl⟩

end Machine
end TraceTracks
