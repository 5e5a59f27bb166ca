import TraceTracks.Proofs.Machine

/-! How deep resolution nests, whatever was announced. The frames and the path belong together: a
frame is on the stack just as long as its uuid is on the path. Only the default track's frame sets
the depth back, and the default track stays on the path from then on. -/
namespace TraceTracks.Machine
variable {β α γ : Type} {limit : Nat} {root : Uuid}

/-- Frames that wait for a uuid, with the path that their guards are open on. -/
inductive Stack (limit : Nat) (root : Uuid) : Trail → List Frame → Uuid → Prop
  | nil : Stack limit root .empty [] root
  | link {path frames uuid r} (outer : Stack limit root path frames uuid)
      (short : (path.enter uuid).depth ≤ limit) (apart : r.parent ∉ uuid :: path.above) :
      Stack limit root (path.enter uuid) (.link uuid r path.guard :: frames) r.parent
  | shelter {path frames uuid r placement} (outer : Stack limit root path frames uuid)
      (nonzero : uuid ≠ 0) (free : 0 ∉ path.above) :
      Stack limit root (path.enterRoot uuid) (.shelter uuid r placement path.guard :: frames) 0

namespace Stack
variable {path : Trail} {frames : List Frame} {awaited : Uuid}

theorem above_eq (s : Stack limit root path frames awaited) :
    path.above = frames.map Frame.uuid := by
  induction s with
  | nil => rfl
  | link outer short apart ih => rw [Trail.above_enter, ih]; rfl
  | shelter outer nonzero free ih => rw [Trail.above_enterRoot, ih]; rfl

theorem fresh (s : Stack limit root path frames awaited) : awaited ∉ path.above := by
  cases s with
  | nil => exact List.not_mem_nil
  | link outer short apart =>
    rw [Trail.above_enter]
    exact apart
  | shelter outer nonzero free =>
    rw [Trail.above_enterRoot]
    exact List.not_mem_cons_of_ne_of_not_mem (Ne.symm nonzero) free

theorem nodup (s : Stack limit root path frames awaited) : path.above.Nodup := by
  induction s with
  | nil => exact List.nodup_nil
  | link outer short apart ih =>
    rw [Trail.above_enter]
    exact List.nodup_cons.mpr ⟨outer.fresh, ih⟩
  | shelter outer nonzero free ih =>
    rw [Trail.above_enterRoot]
    exact List.nodup_cons.mpr ⟨outer.fresh, ih⟩

theorem level (s : Stack limit root path frames awaited) : path.Level := by
  induction s with
  | nil => exact Trail.level_empty
  | link outer short apart ih => exact ih.enter _
  | shelter outer nonzero free ih => exact Trail.level_enterRoot _ _

theorem depth_le (s : Stack limit root path frames awaited) : path.depth ≤ limit := by
  cases s with
  | nil => exact Nat.zero_le limit
  | link outer short apart => exact short
  | shelter outer nonzero free =>
    rw [Trail.depth_enterRoot]
    exact Nat.zero_le limit

/-- Once the depth was set back, the default track is awaited or on the path, and so the depth is
not set back again. -/
theorem shelters (s : Stack limit root path frames awaited) :
    frames.countP Frame.isShelter ≤ 1 ∧
      (0 ∉ awaited :: path.above → frames.countP Frame.isShelter = 0) := by
  induction s with
  | nil => exact ⟨Nat.zero_le 1, fun _ => rfl⟩
  | @link path frames uuid r outer short apart ih =>
    refine ⟨ih.1, fun h => ih.2 fun waits => h (List.mem_cons_of_mem _ ?_)⟩
    rw [Trail.above_enter]
    exact waits
  | @shelter path frames uuid r placement outer nonzero free ih =>
    have none : frames.countP Frame.isShelter = 0 :=
      ih.2 (List.not_mem_cons_of_ne_of_not_mem (Ne.symm nonzero) free)
    refine ⟨?_, fun h => (h List.mem_cons_self).elim⟩
    rw [List.countP_cons, none]
    exact Nat.le_refl 1

/-- Each stretch of the path, from where the depth was set back, is within the limit. -/
theorem size_le (s : Stack limit root path frames awaited) :
    path.size ≤ path.depth + (limit + 1) * frames.countP Frame.isShelter := by
  induction s with
  | nil => exact Nat.zero_le _
  | @link path frames uuid r outer short apart ih =>
    have unchanged : (Frame.link uuid r path.guard :: frames).countP Frame.isShelter =
        frames.countP Frame.isShelter := rfl
    rw [Trail.size_enter, outer.level.depth_enter, unchanged]
    omega
  | @shelter path frames uuid r placement outer nonzero free ih =>
    have one : (Frame.shelter uuid r placement path.guard :: frames).countP Frame.isShelter =
        frames.countP Frame.isShelter + 1 := List.countP_cons_of_pos rfl
    have size : (path.enterRoot uuid).size = path.size + 1 := by
      simp [Trail.enterRoot, Trail.size]
    have short := outer.depth_le
    rw [Trail.depth_enterRoot, one, size, Nat.mul_succ]
    omega

end Stack

def Task.ended : Task → Bool
  | answered _ => true
  | failed _ => true
  | _ => false

def Task.At (c : Catalog β) (base path : Trail) (awaited : Uuid) : Task → Prop
  | resolve uuid => uuid = awaited ∧ path = base
  | make uuid _ => uuid = awaited ∧ path = base
  | follow uuid _ guard => uuid = awaited ∧ path = base.enter uuid ∧ guard = base.guard
  | place uuid _ _ => uuid = awaited ∧ path = base
  | shelter uuid _ _ => uuid = awaited ∧ path = base ∧ uuid ≠ 0
  | attach uuid _ _ _ => uuid = awaited ∧ path = base
  | give found => path = base ∧ (found = none → c.placement? awaited = none)
  | answered _ => path = base
  | failed _ => path = base

/-- What a call keeps at every step. -/
structure Orderly (limit : Nat) (root : Uuid) (base : Trail) (awaited : Uuid) (m : Machine β) :
    Prop where
  stack : Stack limit root base m.frames awaited
  task : m.task.At m.catalog base m.path awaited
  once : m.begun.Nodup
  begun : m.task.ended = false →
    ∀ u ∈ m.begun, (m.catalog.placement? u).isSome ∨ u ∈ m.making

/-- The bounds on what a call holds at one time. -/
structure Bounded (limit : Nat) (m : Machine β) : Prop where
  distinct : m.path.above.Nodup
  length : m.path.size ≤ 2 * limit + 2
  roots : m.frames.countP Frame.isShelter ≤ 1
  floor : m.path.floor ≤ m.path.size
  nested : m.making.length ≤ 2 * limit + 2
  once : m.begun.Nodup

section Orderly
variable {base : Trail} {awaited : Uuid} {m : Machine β}

theorem Orderly.path_cases (h : Orderly limit root base awaited m) :
    m.path = base ∨ m.path = base.enter awaited := by
  have task := h.task
  revert task
  cases m.task with
  | follow uuid r guard =>
    rintro ⟨rfl, path, -⟩
    exact .inr path
  | resolve uuid => exact fun task => .inl task.2
  | make uuid r => exact fun task => .inl task.2
  | place uuid r parent => exact fun task => .inl task.2
  | shelter uuid r placement => exact fun task => .inl task.2.1
  | attach uuid r placement parent => exact fun task => .inl task.2
  | give found => exact fun task => .inl task.1
  | answered id => exact .inl
  | failed e => exact .inl

theorem Orderly.bounded (h : Orderly limit root base awaited m) : m.Bounded limit := by
  obtain ⟨roots, -⟩ := h.stack.shelters
  have size : base.size ≤ 2 * limit + 1 := by
    have shelters : (limit + 1) * m.frames.countP Frame.isShelter ≤ (limit + 1) * 1 :=
      Nat.mul_le_mul_left _ roots
    have := h.stack.size_le
    have := h.stack.depth_le
    omega
  have nested : m.making.length ≤ base.size + 1 := by
    have frames : m.frames.length = base.size := by
      rw [← List.length_map (f := Frame.uuid), ← h.stack.above_eq]
      simp [Trail.above, Trail.size]
    have task : m.task.making?.toList.length ≤ 1 := by cases m.task.making? <;> simp
    rw [making, List.length_append, List.length_map]
    omega
  have base_or := h.path_cases
  refine ⟨?_, ?_, roots, ?_, by omega, h.once⟩
  · rcases base_or with path | path
    · rw [path]
      exact h.stack.nodup
    · rw [path, Trail.above_enter]
      exact List.nodup_cons.mpr ⟨h.stack.fresh, h.stack.nodup⟩
  · rcases base_or with path | path
    · rw [path]
      omega
    · rw [path, Trail.size_enter]
      omega
  · rcases base_or with path | path
    · rw [path]
      exact h.stack.level
    · rw [path]
      exact h.stack.level.enter awaited

theorem Orderly.proceed (h : Orderly limit root base awaited m) (live : m.task.ended = false)
    {m' : Machine β} {base' : Trail} {awaited' : Uuid}
    (stack : Stack limit root base' m'.frames awaited')
    (task : m'.task.At m'.catalog base' m'.path awaited') (same : m'.begun = m.begun)
    (kept : ∀ u, (m.catalog.placement? u).isSome ∨ u ∈ m.making →
      (m'.catalog.placement? u).isSome ∨ u ∈ m'.making) :
    Orderly limit root base' awaited' m' where
  stack := stack
  task := task
  once := same ▸ h.once
  begun _ u hu := kept u (h.begun live u (same ▸ hu))

theorem Orderly.begin (h : Orderly limit root base awaited m) (live : m.task.ended = false)
    (idle : m.task.making? = none) (path : m.path = base)
    (absent : m.catalog.placement? awaited = none) (r : Reservation) :
    Orderly limit root base awaited (m.begin awaited r) where
  stack := h.stack
  task := ⟨rfl, path⟩
  once := by
    refine List.nodup_cons.mpr ⟨fun again => ?_, h.once⟩
    rcases h.begun live _ again with placed | unfinished
    · rw [absent] at placed
      cases placed
    · rw [making, idle, Option.toList_none, List.nil_append, ← h.stack.above_eq] at unfinished
      exact h.stack.fresh unfinished
  begun _ u hu := by
    rcases List.mem_cons.mp hu with rfl | hu
    · exact .inr (List.mem_append_left _ (by simp [Machine.begin, Task.making?]))
    · refine (h.begun live u hu).imp id fun unfinished => ?_
      rw [making, idle, Option.toList_none, List.nil_append] at unfinished
      exact List.mem_append_right _ unfinished

end Orderly

section Placements
variable {x : Act β α} {c c' : Catalog β}

def Leaves (x : Act β α) : Prop := ∀ c a c', x c = .ok a c' → c'.placements = c.placements

theorem leaves_pure (a : α) : Leaves (pure a : Act β α) := by
  rintro c a c' ⟨⟩
  rfl

theorem leaves_get : Leaves (get : Act β (Catalog β)) := by
  rintro c a c' ⟨⟩
  rfl

theorem leaves_onBackend (f : β → α × β) : Leaves (Act.onBackend f) := by
  rintro c a c' ⟨⟩
  rfl

theorem leaves_tryBackend (f : EStateM Fault β α) : Leaves (Act.tryBackend f) := by
  intro c a c' h
  unfold Act.tryBackend at h
  split at h <;> cases h
  rfl

theorem leaves_claim (f : Claiming β α) : Leaves (Act.claim f) := by
  intro c a c' h
  unfold Act.claim at h
  split at h <;> cases h
  rfl

theorem Leaves.bind {f : α → Act β γ} (hx : Leaves x) (hf : ∀ a, Leaves (f a)) :
    Leaves (x >>= f) := by
  intro c b c' h
  obtain ⟨a, c₁, h₁, h₂⟩ := Act.of_bind_ok h
  rw [hf a c₁ b c' h₂, hx c a c₁ h₁]

variable [TrackSink β]

theorem leaves_annotate (track : TrackId) (uuid : Uuid) (parent : Option TrackId)
    (category : StringId) : Leaves (Catalog.annotate track uuid parent category : Act β Unit) := by
  refine leaves_get.bind fun c => (leaves_tryBackend _).bind fun _ =>
    (leaves_tryBackend _).bind fun _ => ?_
  have close : Leaves (if !StringId.isNull category then
      Act.tryBackend (TrackSink.addArg track c.vocabulary.category (.string category))
      else pure () : Act β Unit) := by
    split
    · exact leaves_tryBackend _
    · exact leaves_pure _
  cases parent with
  | none => exact close
  | some parent => exact (leaves_tryBackend _).bind fun _ => close

theorem placed_record {uuid : Uuid} {r : Reservation} {placement q : Placement}
    {parent : Option Placement} (h : Catalog.record uuid r placement parent c = .ok q c')
    (u : Uuid) (placed : (c.placement? u).isSome ∨ u = uuid) : (c'.placement? u).isSome := by
  obtain ⟨_, c₁, annotated, h⟩ := Act.of_bind_ok h
  obtain ⟨_, c₂, remembered, h⟩ := Act.of_bind_ok h
  have inserted : c₂.placements = c.placements.insert uuid placement := by
    rw [← leaves_annotate _ _ _ _ _ _ _ annotated]
    cases remembered
    rfl
  have named : c'.placements = c₂.placements := by
    revert h
    dsimp only
    split
    · exact fun h => (leaves_tryBackend _).bind (fun _ => leaves_pure placement) _ _ _ h
    · exact fun h => leaves_pure placement _ _ _ h
  rw [Catalog.placement?, named, inserted, Registry.get?_insert]
  split
  · rfl
  next other => exact placed.resolve_right other

variable [LifetimeSource β]

theorem ground_leaves : Catalog.Ground fun {α} (x : Act β α) => Leaves x where
  pure := leaves_pure
  bind := Leaves.bind
  count a := by
    rintro c a c' ⟨⟩
    rfl
  createRow scope flavor := leaves_onBackend _
  threadRow utid := leaves_onBackend _
  processRow upid := leaves_onBackend _
  claimThread uuid pid tid := leaves_claim _
  claimProcess uuid pid := leaves_claim _

theorem placed_settle {uuid : Uuid} {r : Reservation} {q : Placement}
    {parent : Option Placement} (h : Catalog.settle uuid r parent c = .ok q c') (u : Uuid)
    (placed : (c.placement? u).isSome ∨ u = uuid) : (c'.placement? u).isSome := by
  obtain ⟨p, c₁, situated, recorded⟩ := Act.of_bind_ok h
  refine placed_record recorded u (placed.imp (fun placed => ?_) id)
  rw [Catalog.placement?, ground_leaves.situate _ _ _ _ _ _ situated]
  exact placed

end Placements

section Step
variable {base : Trail} {awaited : Uuid} {m : Machine β}

theorem orderly_start (c : Catalog β) (q : Query) :
    Orderly limit q.uuid .empty q.uuid (start c q) :=
  ⟨.nil, ⟨rfl, rfl⟩, List.nodup_nil, fun _ => List.forall_mem_nil _⟩

theorem Orderly.act (h : Orderly limit root base awaited m) (live : m.task.ended = false)
    (path : m.path = base) {x : Act β α} {next : α → Task}
    (task : ∀ a c', x m.catalog = .ok a c' → (next a).At c' base base awaited)
    (kept : ∀ a c', x m.catalog = .ok a c' → (next a).ended = false →
      ∀ u, (m.catalog.placement? u).isSome ∨ u ∈ m.making →
        (c'.placement? u).isSome ∨ u ∈ (next a).making?.toList ++ m.frames.map Frame.uuid) :
    Orderly limit root base awaited (m.act x next) := by
  unfold Machine.act
  cases result : x m.catalog with
  | ok a c' =>
    exact ⟨h.stack, path ▸ task a c' result, h.once, fun goes u hu =>
      kept a c' result goes u (h.begun live u hu)⟩
  | error e c' => exact ⟨h.stack, path, h.once, fun goes => Bool.noConfusion goes⟩

theorem kept_of_finished {c c' : Catalog β} {uuid : Uuid} {frames : List Frame}
    (added : ∀ u, (c.placement? u).isSome ∨ u = uuid → (c'.placement? u).isSome) (u : Uuid)
    (kept : (c.placement? u).isSome ∨ u ∈ uuid :: frames.map Frame.uuid) :
    (c'.placement? u).isSome ∨ u ∈ frames.map Frame.uuid := by
  rcases kept with placed | unfinished
  · exact .inl (added u (.inl placed))
  · rcases List.mem_cons.mp unfinished with here | rest
    · exact .inl (added u (.inr here))
    · exact .inr rest

variable [TrackSink β]

theorem Orderly.beginDefault (h : Orderly limit root base 0 m) (task : m.task = .give none) :
    Orderly limit root base 0 m.beginDefault := by
  obtain ⟨c, path, frames, task, begun⟩ := m
  subst task
  obtain ⟨rfl, absent⟩ := h.task
  let r := (Descriptor.child 0 c.vocabulary.defaultTrackName).reservation
  have same := Catalog.placement?_reserve 0 r c
  have absent' : (c.reserve 0 r).placement? 0 = none := by rw [same, absent rfl]
  have announced : Orderly limit root path 0 ⟨c.reserve 0 r, path, frames, .give none, begun⟩ :=
    h.proceed rfl h.stack ⟨rfl, fun _ => absent'⟩ rfl fun u kept => by
      rw [same]
      exact kept
  exact announced.begin rfl rfl rfl absent' r

theorem Orderly.receive {q : Query} {found : Option Placement}
    (h : Orderly limit q.uuid base awaited m) (task : m.task = .give found) :
    ∃ base' awaited', Orderly limit q.uuid base' awaited' (m.receive q found) := by
  obtain ⟨c, path, frames, task, begun⟩ := m
  subst task
  obtain ⟨rfl, absent⟩ := h.task
  cases h.stack with
  | nil =>
    cases found with
    | some placement =>
      exact ⟨.empty, q.uuid,
        h.act rfl rfl (fun _ _ _ => rfl) fun _ _ _ goes => Bool.noConfusion goes⟩
    | none =>
      cases q with
      | track uuid event => exact ⟨.empty, uuid, h.proceed rfl .nil rfl rfl fun u kept => kept⟩
      | default => exact ⟨.empty, 0, h.beginDefault rfl⟩
  | @link path frames uuid r outer short apart =>
    refine ⟨path, uuid, ?_⟩
    cases found with
    | some placement =>
      exact h.proceed rfl outer ⟨rfl, Trail.drop_enter path uuid⟩ rfl fun u kept => kept
    | none =>
      exact h.proceed rfl outer ⟨rfl, Trail.drop_enter path uuid⟩ rfl fun u kept => kept
  | @shelter path frames uuid r placement outer nonzero free =>
    cases found with
    | some parent =>
      exact ⟨path, uuid,
        h.proceed rfl outer ⟨rfl, Trail.drop_enterRoot path uuid⟩ rfl fun u kept => kept⟩
    | none => exact ⟨_, 0, h.beginDefault rfl⟩

variable [LifetimeSource β]

variable {q : Query} {uuid : Uuid} {r : Reservation}

theorem Orderly.step_resolve (h : Orderly limit q.uuid base awaited m)
    (task : m.task = .resolve uuid) : Orderly limit q.uuid base awaited (m.step limit q) := by
  obtain ⟨c, path, frames, task, begun⟩ := m
  subst task
  obtain ⟨rfl, rfl⟩ := h.task
  unfold Machine.step
  dsimp only
  split
  next placement placed =>
    exact h.proceed rfl h.stack ⟨rfl, fun absent => absurd absent (Option.some_ne_none _)⟩ rfl
      fun u kept => kept
  next r absent reserved => exact h.begin rfl rfl rfl absent r
  next absent unreserved =>
    exact h.proceed rfl h.stack ⟨rfl, fun _ => absent⟩ rfl fun u kept => kept

theorem Orderly.step_make (h : Orderly limit q.uuid base awaited m)
    (task : m.task = .make uuid r) : Orderly limit q.uuid base awaited (m.step limit q) := by
  obtain ⟨c, path, frames, task, begun⟩ := m
  subst task
  obtain ⟨rfl, rfl⟩ := h.task
  unfold Machine.step
  dsimp only
  split
  · exact h.proceed rfl h.stack ⟨rfl, rfl⟩ rfl fun u kept => kept
  · exact h.proceed rfl h.stack ⟨rfl, rfl, rfl⟩ rfl fun u kept => kept

theorem Orderly.step_follow {guard : Trail.Guard} (h : Orderly limit q.uuid base awaited m)
    (task : m.task = .follow uuid r guard) :
    ∃ base' awaited', Orderly limit q.uuid base' awaited' (m.step limit q) := by
  obtain ⟨c, path, frames, task, begun⟩ := m
  subst task
  obtain ⟨rfl, rfl, rfl⟩ := h.task
  have cut (a : Anomaly) : Orderly limit q.uuid base uuid
      (Machine.cut ⟨c, base.enter uuid, frames, .follow uuid r base.guard, begun⟩ a uuid r
        base.guard) :=
    h.proceed rfl h.stack ⟨rfl, Trail.drop_enter base uuid⟩ rfl fun u kept => kept
  unfold Machine.step
  dsimp only
  split
  next short =>
    split
    next loop => exact ⟨base, uuid, cut .loop⟩
    next apart =>
      rw [Trail.contains_iff_mem_above, Trail.above_enter] at apart
      exact ⟨base.enter uuid, r.parent,
        h.proceed rfl (h.stack.link short apart) ⟨rfl, rfl⟩ rfl fun u kept => kept⟩
  next => exact ⟨base, uuid, cut .tooManyAncestors⟩

theorem Orderly.step_place {parent : Option Placement} (h : Orderly limit q.uuid base awaited m)
    (task : m.task = .place uuid r parent) :
    Orderly limit q.uuid base awaited (m.step limit q) := by
  obtain ⟨c, path, frames, task, begun⟩ := m
  subst task
  obtain ⟨rfl, rfl⟩ := h.task
  unfold Machine.step
  dsimp only
  split
  next housed =>
    exact h.act rfl rfl
      (fun _ _ _ => ⟨rfl, fun absent => absurd absent (Option.some_ne_none _)⟩)
      fun _ _ settled _ => kept_of_finished (placed_settle settled)
  next homeless =>
    have nonzero : uuid ≠ 0 := fun h => homeless (.inr (.inr h))
    refine h.act rfl rfl (fun _ _ _ => ⟨rfl, rfl, nonzero⟩) fun _ _ made _ u kept => ?_
    rw [Catalog.placement?, ground_leaves.createTrack _ _ _ _ _ made]
    exact kept

theorem Orderly.step_shelter {placement : Placement} (h : Orderly limit q.uuid base awaited m)
    (task : m.task = .shelter uuid r placement) :
    ∃ base' awaited', Orderly limit q.uuid base' awaited' (m.step limit q) := by
  obtain ⟨c, path, frames, task, begun⟩ := m
  subst task
  obtain ⟨rfl, rfl, nonzero⟩ := h.task
  unfold Machine.step
  dsimp only
  split
  next => exact ⟨path, uuid, h.proceed rfl h.stack ⟨rfl, rfl⟩ rfl fun u kept => kept⟩
  next free =>
    rw [Trail.contains_iff_mem_above] at free
    exact ⟨path.enterRoot uuid, 0,
      h.proceed rfl (h.stack.shelter nonzero free) ⟨rfl, rfl⟩ rfl fun u kept => kept⟩

theorem Orderly.step_attach {placement : Placement} {parent : Option Placement}
    (h : Orderly limit q.uuid base awaited m) (task : m.task = .attach uuid r placement parent) :
    Orderly limit q.uuid base awaited (m.step limit q) := by
  obtain ⟨c, path, frames, task, begun⟩ := m
  subst task
  obtain ⟨rfl, rfl⟩ := h.task
  exact h.act rfl rfl (fun _ _ _ => ⟨rfl, fun absent => absurd absent (Option.some_ne_none _)⟩)
    fun _ _ recorded _ => kept_of_finished (placed_record recorded)

theorem Orderly.step_failed {e : Fault} (h : Orderly limit q.uuid base awaited m)
    (task : m.task = .failed e) :
    ∃ base' awaited', Orderly limit q.uuid base' awaited' (m.step limit q) := by
  obtain ⟨c, path, frames, task, begun⟩ := m
  subst task
  cases h.task
  cases h.stack with
  | nil => exact ⟨.empty, q.uuid, h⟩
  | @link path frames uuid r outer short apart =>
    exact ⟨path, uuid, outer, Trail.drop_enter path uuid, h.once,
      fun goes => Bool.noConfusion goes⟩
  | @shelter path frames uuid r placement outer nonzero free =>
    exact ⟨path, uuid, outer, Trail.drop_enterRoot path uuid, h.once,
      fun goes => Bool.noConfusion goes⟩

theorem Orderly.step (h : Orderly limit q.uuid base awaited m) :
    ∃ base' awaited', Orderly limit q.uuid base' awaited' (m.step limit q) := by
  cases task : m.task with
  | resolve uuid => exact ⟨base, awaited, h.step_resolve task⟩
  | make uuid r => exact ⟨base, awaited, h.step_make task⟩
  | follow uuid r guard => exact h.step_follow task
  | place uuid r parent => exact ⟨base, awaited, h.step_place task⟩
  | shelter uuid r placement => exact h.step_shelter task
  | attach uuid r placement parent => exact ⟨base, awaited, h.step_attach task⟩
  | give found =>
    obtain ⟨base', awaited', received⟩ := h.receive task
    exact ⟨base', awaited', by rwa [Machine.step, task]⟩
  | answered id => exact ⟨base, awaited, by rwa [Machine.step, task]⟩
  | failed e => exact h.step_failed task

theorem Orderly.after (h : Orderly limit q.uuid base awaited m) (n : Nat) :
    ∃ base' awaited', Orderly limit q.uuid base' awaited' (after limit q n m) := by
  induction n generalizing m base awaited with
  | zero => exact ⟨base, awaited, h⟩
  | succ n ih =>
    obtain ⟨base', awaited', next⟩ := h.step
    exact ih next

end Step

/-- Whatever was announced and remembered, a call comes to an end, and at every moment of it the
path and the nesting are within bounds that only the settings enter into. -/
theorem halts_within_bounds [TrackSink β] [LifetimeSource β] (c : Catalog β) (q : Query) :
    (∃ n, ∀ k, n ≤ k →
      (after c.settings.maxAncestors q k (start c q)).outcome? = some (q.answer c)) ∧
    ∀ k, (after c.settings.maxAncestors q k (start c q)).Bounded c.settings.maxAncestors := by
  constructor
  · obtain ⟨n, stopped⟩ := halts c q
    refine ⟨n, fun k later => ?_⟩
    obtain ⟨extra, rfl⟩ := Nat.exists_eq_add_of_le later
    rw [after_add, after_of_outcome? (by rw [stopped]; rfl), stopped]
  · intro k
    obtain ⟨base, awaited, orderly⟩ := (orderly_start c q).after k
    exact orderly.bounded

end TraceTracks.Machine
