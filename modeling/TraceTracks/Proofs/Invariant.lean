import TraceTracks.Proofs.Entities

/-! What holds of the tables of a session between the steps of its resolutions. The tracks made so
far are listed in a log, oldest first. A row is made before it is recorded, and what is resolved in
between sees it as held: it exists, and nothing refers to it yet. -/
namespace TraceTracks

/-- Where the parent of an entry comes from, or why it has none. -/
structure Entry.Due (e : Entry) (r : Reservation) : Prop where
  declared : ∀ v, e.parent = some v → v ≠ 0 → v = r.parent
  default : e.parent = some 0 → r.pid = none ∧ e.uuid ≠ 0
  none : e.parent = none → r.pid.isSome ∨ e.uuid = 0 ∨ .defaultLoop ∈ e.cuts

namespace Entry.Due
variable {uuid v : Uuid} {cuts : List Cut} {r : Reservation}

theorem of_none (h : r.pid.isSome ∨ uuid = 0 ∨ .defaultLoop ∈ cuts) :
    Due ⟨uuid, .none, cuts⟩ r where
  declared v hv := by cases hv
  default hv := by cases hv
  none _ := h

theorem of_declared (h : v = r.parent) (nonzero : v ≠ 0) : Due ⟨uuid, some v, cuts⟩ r where
  declared w hw _ := (Option.some.inj hw).symm.trans h
  default hv := absurd (Option.some.inj hv) nonzero
  none hv := by cases hv

theorem of_default (hpid : r.pid = .none) (nonzero : uuid ≠ 0) :
    Due ⟨uuid, some 0, cuts⟩ r where
  declared w hw hw0 := absurd (Option.some.inj hw).symm hw0
  default _ := ⟨hpid, nonzero⟩
  none hv := by cases hv

theorem of_still {e : Entry} {r' : Reservation} (h : e.Due r) (same : r'.still = r.still) :
    e.Due r' := by
  have shape := Reservation.toShape_of_still same
  have hpid : r'.pid = r.pid := congrArg Shape.pid shape
  have parent : r'.parent = r.parent := congrArg Shape.parent shape
  obtain ⟨declared, default, none⟩ := h
  rw [← hpid] at default none
  rw [← parent] at declared
  exact ⟨declared, default, none⟩

end Entry.Due

/-- A row that is not recorded yet, made below a parent that it took its scope from. -/
structure Held where
  uuid : Uuid
  reservation : Reservation
  placement : Placement
  above : Option Placement

namespace Session

structure Extends (c c' : Session) : Prop where
  settings : c'.settings = c.settings
  vocabulary : c'.vocabulary = c.vocabulary
  reserved : ∀ u r, c.reservation? u = some r →
    ∃ r', c'.reservation? u = some r' ∧ r'.still = r.still
  placed : ∀ u p, c.placement? u = some p → c'.placement? u = some p
  rank : ∀ u, (c.placement? u).isSome → c'.placements.rank u = c.placements.rank u
  row : ∀ id row, c.row? id = some row → ∃ name, c'.row? id = some { row with name := name }
  args : ∀ u p, c.placement? u = some p → c'.argsOf p.track = c.argsOf p.track
  owner : ∀ s v, c.owner? s = some v → c'.owner? s = some v
  primary : ∀ s id, c.primary? s = some id → c'.primary? s = some id

theorem Extends.refl (c : Session) : Extends c c where
  settings := rfl
  vocabulary := rfl
  reserved _ r h := ⟨r, h, rfl⟩
  placed _ _ h := h
  rank _ _ := rfl
  row _ row h := ⟨row.name, h⟩
  args _ _ _ := rfl
  owner _ _ h := h
  primary _ _ h := h

theorem Extends.trans {a b c : Session} (h : Extends a b) (h' : Extends b c) : Extends a c where
  settings := h'.settings.trans h.settings
  vocabulary := h'.vocabulary.trans h.vocabulary
  reserved u r hr := by
    obtain ⟨r', hr', same⟩ := h.reserved u r hr
    obtain ⟨r'', hr'', same'⟩ := h'.reserved u r' hr'
    exact ⟨r'', hr'', same'.trans same⟩
  placed u p hp := h'.placed u p (h.placed u p hp)
  rank u hu := by
    obtain ⟨p, hp⟩ := Option.isSome_iff_exists.mp hu
    exact (h'.rank u (by simp [h.placed u p hp])).trans (h.rank u hu)
  row id row hr := by
    obtain ⟨name, hr'⟩ := h.row id row hr
    obtain ⟨name', hr''⟩ := h'.row id _ hr'
    exact ⟨name', hr''⟩
  args u p hp := (h'.args u p (h.placed u p hp)).trans (h.args u p hp)
  owner s v hv := h'.owner s v (h.owner s v hv)
  primary s id hid := h'.primary s id (h.primary s id hid)

/-- The track of an entry, as it stands in the tables. -/
structure Stands (c : Session) (e : Entry) (r : Reservation) (p : Placement)
    (q : Option Placement) : Prop where
  reserved : c.reservation? e.uuid = some r
  placed : c.placement? e.uuid = some p
  parent : e.parent.map c.placement? = q.map some
  rank : ∀ v, e.parent = some v → c.placements.rank v < c.placements.rank e.uuid
  due : e.Due r
  suits : p.Suits r.toShape (if e.parent = some 0 then none else q)
  row : ∃ name, c.row? p.track = some ⟨p.track, name, p.scope, p.flavor⟩
  args : c.argsOf p.track =
    argsFor c.vocabulary e.uuid (q.map Placement.track) r.category
  owned : r.pid.isSome → c.owner? p.scope = some e.uuid ∧ c.primary? p.scope = some p.track

def Placed (c : Session) (e : Entry) : Prop := ∃ r p q, Stands c e r p q

structure Keeps (c : Session) (h : Held) : Prop where
  reserved : ∃ r, c.reservation? h.uuid = some r ∧ r.still = h.reservation.still
  absent : c.placement? h.uuid = none
  suits : h.placement.Suits h.reservation.toShape h.above
  row : c.row? h.placement.track =
    some ⟨h.placement.track, .null, h.placement.scope, h.placement.flavor⟩
  owned : h.reservation.pid.isSome →
    c.owner? h.placement.scope = some h.uuid ∧ c.primary? h.placement.scope = some h.placement.track

inductive Taken (held : List Held) (c : Session) (u : Uuid) (p : Placement) : Prop
  | placed (h : c.placement? u = some p)
  | held (h : Held) (mem : h ∈ held) (uuid : h.uuid = u) (placement : h.placement = p)

structure Sound (log : List Entry) (held : List Held) (c : Session) : Prop where
  entities : c.Entities
  keys : c.placements.keys = log.map Entry.uuid
  placed : ∀ e ∈ log, Placed c e
  keeps : ∀ h ∈ held, Keeps c h
  id : ∀ id row, c.row? id = some row → row.id = id
  taken : ∀ id, (c.row? id).isSome → ∃ u p, Taken held c u p ∧ p.track = id
  unique : ∀ u v p q, Taken held c u p → Taken held c v q → p.track = q.track → u = v
  single : (held.map Held.uuid).Nodup
  bare : ∀ id, (∀ u p, c.placement? u = some p → p.track ≠ id) → c.argsOf id = []
  owner : ∀ s v, c.owner? s = some v → ∃ p, Taken held c v p ∧ p.scope = s

section Facts
variable {log : List Entry} {held : List Held} {c c' : Session}

theorem Placed.mono {e : Entry} (h : Placed c e) (x : Extends c c') : Placed c' e := by
  obtain ⟨r, p, q, h⟩ := h
  obtain ⟨r', reserved, same⟩ := x.reserved e.uuid r h.reserved
  have shape := Reservation.toShape_of_still same
  have hpid : r'.pid = r.pid := congrArg Shape.pid shape
  obtain ⟨name, row⟩ := h.row
  have above (v : Uuid) (hv : e.parent = some v) :
      ∃ p', c.placement? v = some p' ∧ q = some p' := by
    have hq := h.parent
    rw [hv] at hq
    cases q with
    | none => cases hq
    | some p' => exact ⟨p', Option.some.inj hq, rfl⟩
  refine ⟨r', p, q, reserved, x.placed _ _ h.placed, ?_, ?_, ?_, ?_, x.row _ _ row, ?_, ?_⟩
  · cases hv : e.parent with
    | none =>
      have hq := h.parent
      rwa [hv] at hq
    | some v =>
      obtain ⟨p', hp', rfl⟩ := above v hv
      simp [x.placed v p' hp']
  · intro v hv
    obtain ⟨p', hp', rfl⟩ := above v hv
    rw [x.rank v (by simp [hp']), x.rank e.uuid (by simp [h.placed])]
    exact h.rank v hv
  · exact h.due.of_still same
  · rw [shape]
    exact h.suits
  · rw [x.args _ _ h.placed, x.vocabulary, Reservation.category_of_still same]
    exact h.args
  · rw [hpid]
    exact fun hp => ⟨x.owner _ _ (h.owned hp).1, x.primary _ _ (h.owned hp).2⟩

theorem Keeps.mono {h : Held} (k : Keeps c h) (x : Extends c c')
    (absent : c'.placement? h.uuid = none)
    (row : c'.row? h.placement.track = c.row? h.placement.track) : Keeps c' h := by
  obtain ⟨r, hr, same⟩ := k.reserved
  obtain ⟨r', hr', same'⟩ := x.reserved _ r hr
  exact ⟨⟨r', hr', same'.trans same⟩, absent, k.suits, row.trans k.row,
    fun hp => ⟨x.owner _ _ (k.owned hp).1, x.primary _ _ (k.owned hp).2⟩⟩

theorem Sound.stands_of_placement? (h : Sound log held c) {u : Uuid} {p : Placement}
    (hp : c.placement? u = some p) : ∃ e ∈ log, e.uuid = u ∧ ∃ r q, Stands c e r p q := by
  have hmem : u ∈ c.placements.keys := by
    rw [← Registry.contains_iff_mem_keys, Registry.contains]
    exact Option.isSome_iff_exists.mpr ⟨p, hp⟩
  rw [h.keys, List.mem_map] at hmem
  obtain ⟨e, he, rfl⟩ := hmem
  obtain ⟨r, p', q, stands⟩ := h.placed e he
  obtain rfl : p' = p := Option.some.inj (stands.placed.symm.trans hp)
  exact ⟨e, he, rfl, r, q, stands⟩

theorem Taken.placement? {u : Uuid} {p : Placement} (t : Taken [] c u p) :
    c.placement? u = some p := by
  cases t with
  | placed hp => exact hp
  | held k mem => cases mem

theorem Sound.row_of_taken (h : Sound log held c) {u : Uuid} {p : Placement}
    (t : Taken held c u p) : ∃ name, c.row? p.track = some ⟨p.track, name, p.scope, p.flavor⟩ := by
  cases t with
  | placed hp =>
    obtain ⟨e, -, -, r, q, stands⟩ := h.stands_of_placement? hp
    exact stands.row
  | held k mem uuid placement =>
    subst placement
    exact ⟨_, (h.keeps k mem).row⟩

theorem Sound.row_of_placement? (h : Sound log held c) (u : Uuid) (p : Placement)
    (hp : c.placement? u = some p) : (c.row? p.track).isSome := by
  obtain ⟨name, row⟩ := h.row_of_taken (.placed hp)
  rw [row]
  rfl

theorem Sound.placement?_of_owner? (h : Sound log [] c) {s : Scope} {u : Uuid}
    (owner : c.owner? s = some u) : ∃ p, c.placement? u = some p ∧ p.scope = s := by
  obtain ⟨p, taken, scope⟩ := h.owner s u owner
  exact ⟨p, taken.placement?, scope⟩

theorem Sound.free (h : Sound log held c) {u : Uuid} (absent : c.placement? u = none)
    (new : u ∉ held.map Held.uuid) (s : Scope) : c.owner? s ≠ some u := by
  intro hu
  obtain ⟨p, t, -⟩ := h.owner s u hu
  cases t with
  | placed hp =>
    rw [absent] at hp
    cases hp
  | held k mem uuid placement => exact new (uuid ▸ List.mem_map_of_mem mem)

end Facts

section Hold
variable {c c₁ : Session} {u : Uuid} {r : Reservation} {p : Placement} {q : Option Placement}

theorem Situated.index_track (x : Situated c u r q p c₁) (fits : c₁.Fits) :
    p.track.index = c.rows.size := by
  have hsize := fits.rows
  rw [x.rows, Array.size_push] at hsize
  rw [x.track]
  exact Handle.index_ofIndex hsize

theorem Situated.row?_track (x : Situated c u r q p c₁) (fits : c₁.Fits) :
    c₁.row? p.track = some ⟨p.track, .null, p.scope, p.flavor⟩ := by
  rw [row?_eq, x.index_track fits, x.rows, Array.getElem?_push_size]

theorem Situated.row?_of_ne (x : Situated c u r q p c₁) (fits : c₁.Fits) {id : TrackId}
    (h : id ≠ p.track) : c₁.row? id = c.row? id := by
  have hne : id.index ≠ c.rows.size := by
    rw [← x.index_track fits]
    exact mt Handle.index_inj.mp h
  rw [row?_eq, row?_eq, x.rows, Array.getElem?_push, if_neg hne]

theorem Situated.row?_before (x : Situated c u r q p c₁) (fits : c₁.Fits) :
    c.row? p.track = none := by
  rw [row?_eq, x.index_track fits]
  exact Array.getElem?_eq_none (Nat.le_refl _)

theorem Situated.argsOf_eq (x : Situated c u r q p c₁) (id : TrackId) :
    c₁.argsOf id = c.argsOf id := by
  unfold argsOf
  rw [x.args]

theorem Situated.placement?_eq (x : Situated c u r q p c₁) (v : Uuid) :
    c₁.placement? v = c.placement? v := by
  unfold Catalog.placement?
  rw [x.placements]

theorem Situated.reservation?_eq (x : Situated c u r q p c₁) (v : Uuid) :
    c₁.reservation? v = c.reservation? v := by
  unfold Catalog.reservation?
  rw [x.reservations]

theorem Situated.extends (x : Situated c u r q p c₁) (entities : c.Entities) (fits : c₁.Fits) :
    Extends c c₁ where
  settings := x.settings
  vocabulary := x.vocabulary
  reserved v r hr := ⟨r, (x.reservation?_eq v).trans hr, rfl⟩
  placed v p hp := (x.placement?_eq v).trans hp
  rank v _ := by rw [x.placements]
  row id row hrow := by
    have hne : id ≠ p.track := by
      rintro rfl
      rw [x.row?_before fits] at hrow
      cases hrow
    exact ⟨row.name, (x.row?_of_ne fits hne).trans hrow⟩
  args v p _ := x.argsOf_eq p.track
  owner s v hv := by
    have hne : ¬(r.pid.isSome ∧ s = p.scope) := by
      rintro ⟨hpid, rfl⟩
      rw [x.unowned hpid] at hv
      cases hv
    rw [x.owner, if_neg hne]
    exact hv
  primary s id hid := by
    have hne : ¬(r.pid.isSome ∧ s = p.scope) := by
      rintro ⟨hpid, rfl⟩
      rw [entities.primary?_eq_none (x.unowned hpid)] at hid
      cases hid
    rw [x.primary, if_neg hne]
    exact hid

/-- What is taken once the new row is held: the row, and what was taken before. -/
theorem Situated.taken_iff {held : List Held} (x : Situated c u r q p c₁) {v : Uuid}
    {p' : Placement} : Taken (⟨u, r, p, q⟩ :: held) c₁ v p' ↔
      (v = u ∧ p' = p) ∨ Taken held c v p' := by
  constructor
  · rintro (hp | ⟨k, mem, uuid, placement⟩)
    · exact .inr (.placed ((x.placement?_eq v).symm.trans hp))
    · rcases List.mem_cons.mp mem with rfl | mem
      · exact .inl ⟨uuid.symm, placement.symm⟩
      · exact .inr (.held k mem uuid placement)
  · rintro (⟨rfl, rfl⟩ | hp | ⟨k, mem, uuid, placement⟩)
    · exact .held _ List.mem_cons_self rfl rfl
    · exact .placed ((x.placement?_eq v).trans hp)
    · exact .held k (List.mem_cons_of_mem _ mem) uuid placement

theorem Situated.keeps (x : Situated c u r q p c₁) (fits : c₁.Fits)
    (reserved : c.reservation? u = some r) (absent : c.placement? u = none) :
    Keeps c₁ ⟨u, r, p, q⟩ := by
  refine ⟨⟨r, (x.reservation?_eq u).trans reserved, rfl⟩, (x.placement?_eq u).trans absent,
    x.suits, x.row?_track fits, fun hpid => ?_⟩
  dsimp only at hpid ⊢
  rw [x.owner, x.primary]
  simp [hpid]

theorem Sound.hold {log : List Entry} {held : List Held} (h : Sound log held c)
    (x : Situated c u r q p c₁) (fits : c₁.Fits) (reserved : c.reservation? u = some r)
    (absent : c.placement? u = none) (new : u ∉ held.map Held.uuid) :
    Sound log (⟨u, r, p, q⟩ :: held) c₁ := by
  have extend := x.extends h.entities fits
  have other {v : Uuid} {p' : Placement} (t : Taken held c v p') : p'.track ≠ p.track := by
    intro he
    obtain ⟨name, hrow⟩ := h.row_of_taken t
    rw [he, x.row?_before fits] at hrow
    cases hrow
  have self : Taken (⟨u, r, p, q⟩ :: held) c₁ u p := x.taken_iff.mpr (.inl ⟨rfl, rfl⟩)
  constructor
  case entities => exact x.entities
  case keys => rw [x.placements, h.keys]
  case placed => exact fun e he => (h.placed e he).mono extend
  case keeps =>
    intro k hk
    rcases List.mem_cons.mp hk with rfl | hk
    · exact x.keeps fits reserved absent
    · refine (h.keeps k hk).mono extend ?_ (x.row?_of_ne fits (other (.held k hk rfl rfl)))
      exact (x.placement?_eq _).trans (h.keeps k hk).absent
  case id =>
    intro id row hrow
    by_cases hid : id = p.track
    · rw [hid, x.row?_track fits] at hrow
      cases hrow
      exact hid.symm
    · exact h.id id row ((x.row?_of_ne fits hid).symm.trans hrow)
  case taken =>
    intro id hrow
    by_cases hid : id = p.track
    · exact ⟨u, p, self, hid.symm⟩
    · rw [x.row?_of_ne fits hid] at hrow
      obtain ⟨v, p', t, ht⟩ := h.taken id hrow
      exact ⟨v, p', x.taken_iff.mpr (.inr t), ht⟩
  case unique =>
    intro v w p₁ p₂ t₁ t₂ he
    rcases x.taken_iff.mp t₁ with ⟨rfl, rfl⟩ | k₁ <;>
      rcases x.taken_iff.mp t₂ with ⟨rfl, rfl⟩ | k₂
    · rfl
    · exact absurd he.symm (other k₂)
    · exact absurd he (other k₁)
    · exact h.unique v w p₁ p₂ k₁ k₂ he
  case single =>
    rw [List.map_cons, List.nodup_cons]
    exact ⟨new, h.single⟩
  case bare =>
    intro id hid
    rw [x.argsOf_eq]
    exact h.bare id fun v p' hp => hid v p' ((x.placement?_eq v).trans hp)
  case owner =>
    intro s v hv
    rw [x.owner] at hv
    split at hv
    next hc =>
      cases hv
      exact ⟨p, self, hc.2.symm⟩
    next =>
      obtain ⟨p', t, ht⟩ := h.owner s v hv
      exact ⟨p', x.taken_iff.mpr (.inr t), ht⟩

end Hold

section Release
variable {log : List Entry} {held : List Held} {c : Session} {h : Held} {q : Option Placement}

theorem placement?_recorded (c : Session) (u : Uuid) (r : Reservation) (p : Placement)
    (q : Option Placement) (v : Uuid) :
    (c.recorded u r p q).placement? v = if v = u then some p else c.placement? v := by
  rw [Catalog.placement?, placements_recorded, Registry.get?_insert]
  rfl

theorem placement?_recorded_self (c : Session) (u : Uuid) (r : Reservation) (p : Placement)
    (q : Option Placement) : (c.recorded u r p q).placement? u = some p := by
  rw [placement?_recorded, if_pos rfl]

theorem placement?_recorded_cases {u v : Uuid} {r : Reservation} {p p' : Placement}
    (here : (c.recorded u r p q).placement? v = some p') :
    v = u ∧ p' = p ∨ c.placement? v = some p' := by
  rw [placement?_recorded] at here
  split at here
  next same =>
    cases here
    exact .inl ⟨same, rfl⟩
  next => exact .inr here

theorem reservation?_recorded (c : Session) (u : Uuid) (r : Reservation) (p : Placement)
    (q : Option Placement) : (c.recorded u r p q).reservation? = c.reservation? := by
  unfold Catalog.reservation?
  rw [reservations_recorded]

theorem Sound.track_ne_of_placement? (s : Sound log (h :: held) c) {v : Uuid} {p : Placement}
    (hp : c.placement? v = some p) : p.track ≠ h.placement.track := by
  intro he
  obtain rfl : v = h.uuid :=
    s.unique v h.uuid p h.placement (.placed hp) (.held h List.mem_cons_self rfl rfl) he
  rw [(s.keeps h List.mem_cons_self).absent] at hp
  cases hp

theorem Sound.extends_recorded (s : Sound log (h :: held) c) (q : Option Placement) :
    Extends c (c.recorded h.uuid h.reservation h.placement q) where
  settings := settings_recorded ..
  vocabulary := vocabulary_recorded ..
  reserved v r hr := ⟨r, (congrFun (reservation?_recorded ..) v).trans hr, rfl⟩
  placed v p hp := by
    have hne : v ≠ h.uuid := by
      rintro rfl
      rw [(s.keeps h List.mem_cons_self).absent] at hp
      cases hp
    rw [placement?_recorded, if_neg hne]
    exact hp
  rank v hv := by
    rw [placements_recorded]
    exact Registry.rank_insert hv _ _
  row id row hrow := by
    by_cases hid : id = h.placement.track
    · subst hid
      have held := (s.keeps h List.mem_cons_self).row
      rw [held] at hrow
      cases hrow
      exact ⟨_, row?_recorded_self _ _ _ _ _ held⟩
    · exact ⟨row.name, (row?_recorded_of_ne _ _ _ _ _ hid).trans hrow⟩
  args v p hp := by
    rw [argsOf_recorded, if_neg (s.track_ne_of_placement? hp)]
  owner scope v hv := (owner?_recorded ..).trans hv
  primary scope id hid := (primary?_recorded ..).trans hid

theorem Sound.stands_recorded (s : Sound log (h :: held) c) {e : Entry} (uuid : e.uuid = h.uuid)
    (due : e.Due h.reservation) (parent : e.parent.map c.placement? = q.map some)
    (above : h.above = if e.parent = some 0 then none else q) :
    Placed (c.recorded h.uuid h.reservation h.placement q) e := by
  obtain ⟨⟨r, reserved, same⟩, absent, suits, row, owned⟩ := s.keeps h List.mem_cons_self
  have shape := Reservation.toShape_of_still same
  have hpid : r.pid = h.reservation.pid := congrArg Shape.pid shape
  have extend := s.extends_recorded q
  have located (v : Uuid) (hv : e.parent = some v) : (c.placement? v).isSome := by
    rw [hv] at parent
    cases q with
    | none => cases parent
    | some p' => simp [Option.some.inj parent]
  refine ⟨r, h.placement, q, ?_, ?_, ?_, ?_, ?_, ?_, ⟨_, row?_recorded_self _ _ _ _ _ row⟩, ?_, ?_⟩
  · rw [uuid, reservation?_recorded]
    exact reserved
  · rw [placement?_recorded, if_pos uuid]
  · rw [← parent]
    cases hv : e.parent with
    | none => rfl
    | some v =>
      obtain ⟨p', hp'⟩ := Option.isSome_iff_exists.mp (located v hv)
      exact congrArg some ((extend.placed v p' hp').trans hp'.symm)
  · intro v hv
    rw [placements_recorded, uuid]
    refine Registry.rank_lt_rank_insert (located v hv) ?_ _
    rw [Registry.contains, Option.isSome_eq_false_iff, Option.isNone_iff_eq_none]
    exact absent
  · exact due.of_still same
  · rw [shape, ← above]
    exact suits
  · have bare : c.argsOf h.placement.track = [] :=
      s.bare _ fun v p hp => s.track_ne_of_placement? hp
    rw [argsOf_recorded, if_pos rfl, bare, vocabulary_recorded, uuid,
      Reservation.category_of_still same]
    rfl
  · rw [hpid, owner?_recorded, primary?_recorded, uuid]
    exact owned

theorem Sound.taken_recorded (s : Sound log (h :: held) c) {v : Uuid} {p : Placement} :
    Taken held (c.recorded h.uuid h.reservation h.placement q) v p ↔ Taken (h :: held) c v p := by
  constructor
  · rintro (hp | ⟨k, mem, uuid, placement⟩)
    · rcases placement?_recorded_cases hp with ⟨rfl, rfl⟩ | before
      · exact .held h List.mem_cons_self rfl rfl
      · exact .placed before
    · exact .held k (List.mem_cons_of_mem _ mem) uuid placement
  · rintro (hp | ⟨k, mem, named, lies⟩)
    · exact .placed ((s.extends_recorded q).placed v p hp)
    · rcases List.mem_cons.mp mem with rfl | mem
      · apply Taken.placed
        rw [placement?_recorded, if_pos named.symm, lies]
      · exact .held k mem named lies

theorem Entities.recorded (h : c.Entities) (u : Uuid) (r : Reservation) (p : Placement)
    (q : Option Placement) : (c.recorded u r p q).Entities := by
  refine ⟨?_, fun scope v => ?_, fun scope id => ?_⟩
  · rw [lifetimes_recorded]
    exact h.lifetimes
  · rw [lifetimes_recorded, owner?_recorded]
    exact h.known scope v
  · rw [owner?_recorded, primary?_recorded]
    exact h.primary scope id

theorem Sound.keeps_recorded (s : Sound log (h :: held) c) (q : Option Placement) {k : Held}
    (hk : k ∈ held) : Keeps (c.recorded h.uuid h.reservation h.placement q) k := by
  have kept := s.keeps k (List.mem_cons_of_mem _ hk)
  have single := s.single
  rw [List.map_cons, List.nodup_cons] at single
  have hne : k.uuid ≠ h.uuid := fun he => single.1 (he ▸ List.mem_map_of_mem hk)
  refine kept.mono (s.extends_recorded q) ?_ ?_
  · rw [placement?_recorded, if_neg hne]
    exact kept.absent
  · refine row?_recorded_of_ne _ _ _ _ _ fun he => hne ?_
    exact s.unique _ _ _ _ (.held k (List.mem_cons_of_mem _ hk) rfl rfl)
      (.held h List.mem_cons_self rfl rfl) he

theorem Sound.release (s : Sound log (h :: held) c) {e : Entry} (uuid : e.uuid = h.uuid)
    (due : e.Due h.reservation) (parent : e.parent.map c.placement? = q.map some)
    (above : h.above = if e.parent = some 0 then none else q) :
    Sound (log ++ [e]) held (c.recorded h.uuid h.reservation h.placement q) := by
  have keeps := s.keeps h List.mem_cons_self
  have extend := s.extends_recorded q
  constructor
  case entities => exact s.entities.recorded ..
  case keys =>
    have new : c.placements.contains h.uuid = false := by
      rw [Registry.contains, Option.isSome_eq_false_iff, Option.isNone_iff_eq_none]
      exact keeps.absent
    rw [placements_recorded, Registry.keys_insert, new, s.keys]
    simp [uuid]
  case placed =>
    intro e' he'
    rcases List.mem_append.mp he' with he' | he'
    · exact (s.placed e' he').mono extend
    · rw [List.mem_singleton] at he'
      subst he'
      exact s.stands_recorded uuid due parent above
  case keeps => exact fun k hk => s.keeps_recorded q hk
  case id =>
    intro id row hrow
    by_cases hid : id = h.placement.track
    · subst hid
      rw [row?_recorded_self _ _ _ _ _ keeps.row] at hrow
      cases hrow
      rfl
    · exact s.id id row ((row?_recorded_of_ne _ _ _ _ _ hid).symm.trans hrow)
  case taken =>
    intro id hrow
    have hrow : (c.row? id).isSome := by
      by_cases hid : id = h.placement.track
      · rw [hid, keeps.row]
        rfl
      · rwa [row?_recorded_of_ne _ _ _ _ _ hid] at hrow
    obtain ⟨v, p, t, ht⟩ := s.taken id hrow
    exact ⟨v, p, s.taken_recorded.mpr t, ht⟩
  case unique =>
    intro v w p₁ p₂ t₁ t₂ he
    exact s.unique v w p₁ p₂ (s.taken_recorded.mp t₁) (s.taken_recorded.mp t₂) he
  case single =>
    have single := s.single
    rw [List.map_cons, List.nodup_cons] at single
    exact single.2
  case bare =>
    intro id hid
    have hne : id ≠ h.placement.track := by
      exact (hid h.uuid h.placement (placement?_recorded_self ..)).symm
    rw [argsOf_recorded, if_neg hne]
    exact s.bare id fun v p hp => hid v p (extend.placed v p hp)
  case owner =>
    intro scope v hv
    rw [owner?_recorded] at hv
    obtain ⟨p, t, ht⟩ := s.owner scope v hv
    exact ⟨p, s.taken_recorded.mpr t, ht⟩

end Release

section Quiet

structure Quiet (c c' : Session) : Prop where
  settings : c'.settings = c.settings
  vocabulary : c'.vocabulary = c.vocabulary
  placements : c'.placements = c.placements
  reserved : ∀ u r, c.reservation? u = some r →
    ∃ r', c'.reservation? u = some r' ∧ r'.still = r.still
  row : ∀ id row, c.row? id = some row → ∃ name, c'.row? id = some { row with name := name }
  rows : c'.rows.size = c.rows.size
  args : c'.argsOf = c.argsOf
  owner : c'.owner? = c.owner?
  primary : c'.primary? = c.primary?
  lifetimes : c.backend.lifetimes.Grows c'.backend.lifetimes
  sound : c.backend.lifetimes.Sound → c'.backend.lifetimes.Sound

variable {log : List Entry} {held : List Held} {c c' : Session}

theorem Quiet.placement?_eq (x : Quiet c c') : c'.placement? = c.placement? := by
  unfold Catalog.placement?
  rw [x.placements]

theorem Quiet.extends (x : Quiet c c') : Extends c c' where
  settings := x.settings
  vocabulary := x.vocabulary
  reserved := x.reserved
  placed u p hp := by rwa [x.placement?_eq]
  rank u _ := by rw [x.placements]
  row := x.row
  args u p _ := by rw [x.args]
  owner s v hv := by rwa [x.owner]
  primary s id hid := by rwa [x.primary]

theorem Quiet.row?_of_row? (x : Quiet c c') {id : TrackId} {row : Track}
    (h : c'.row? id = some row) : ∃ row₀ name, c.row? id = some row₀ ∧
      row = { row₀ with name := name } := by
  have hlt : id.index < c.rows.size := by
    rw [← x.rows, ← row?_isSome_iff, h]
    rfl
  obtain ⟨row₀, h₀⟩ := Option.isSome_iff_exists.mp (row?_isSome_iff.mpr hlt)
  obtain ⟨name, h'⟩ := x.row id row₀ h₀
  rw [h] at h'
  cases h'
  exact ⟨row₀, name, h₀, rfl⟩

theorem Sound.quiet (s : Sound log held c) (x : Quiet c c')
    (still : ∀ h ∈ held, c'.row? h.placement.track = c.row? h.placement.track) :
    Sound log held c' := by
  have taken {v : Uuid} {p : Placement} : Taken held c' v p ↔ Taken held c v p := by
    constructor <;> intro t <;> cases t with
    | placed hp => exact .placed (by simpa only [x.placement?_eq] using hp)
    | held k mem uuid placement => exact .held k mem uuid placement
  constructor
  case entities =>
    refine ⟨x.sound s.entities.lifetimes, ?_, ?_⟩
    · intro scope v hv
      rw [x.owner] at hv
      exact x.lifetimes.holds (s.entities.known scope v hv)
    · intro scope id hid
      rw [x.primary] at hid
      rw [x.owner]
      exact s.entities.primary scope id hid
  case keys => rw [x.placements, s.keys]
  case placed => exact fun e he => (s.placed e he).mono x.extends
  case keeps =>
    intro h hh
    refine (s.keeps h hh).mono x.extends ?_ (still h hh)
    rw [x.placement?_eq]
    exact (s.keeps h hh).absent
  case id =>
    intro id row hrow
    obtain ⟨row₀, name, h₀, rfl⟩ := x.row?_of_row? hrow
    exact s.id id row₀ h₀
  case taken =>
    intro id hrow
    obtain ⟨row, hrow⟩ := Option.isSome_iff_exists.mp hrow
    obtain ⟨row₀, -, h₀, -⟩ := x.row?_of_row? hrow
    obtain ⟨v, p, t, ht⟩ := s.taken id (by simp [h₀])
    exact ⟨v, p, taken.mpr t, ht⟩
  case unique => exact fun v w p q t t' he => s.unique v w p q (taken.mp t) (taken.mp t') he
  case single => exact s.single
  case bare =>
    intro id hid
    rw [x.placement?_eq] at hid
    rw [x.args]
    exact s.bare id hid
  case owner =>
    intro scope v hv
    rw [x.owner] at hv
    obtain ⟨p, t, ht⟩ := s.owner scope v hv
    exact ⟨p, taken.mpr t, ht⟩

theorem quiet_withTally (c : Session) (tally : Tally) : Quiet c (c.withTally tally) where
  settings := rfl
  vocabulary := rfl
  placements := rfl
  reserved _ r h := ⟨r, h, rfl⟩
  row _ row h := ⟨row.name, h⟩
  rows := rfl
  args := rfl
  owner := by
    funext s
    cases s <;> rfl
  primary := by
    funext s
    cases s <;> rfl
  lifetimes := .refl _
  sound := id

theorem quiet_reservations (c : Session) (reservations : Reservations)
    (reserved : ∀ u r, c.reservation? u = some r →
      ∃ r', reservations.get? u = some r' ∧ r'.still = r.still) :
    Quiet c { c with reservations := reservations } where
  settings := rfl
  vocabulary := rfl
  placements := rfl
  reserved := reserved
  row _ row h := ⟨row.name, h⟩
  rows := rfl
  args := rfl
  owner := by
    funext s
    cases s <;> rfl
  primary := by
    funext s
    cases s <;> rfl
  lifetimes := .refl _
  sound := id

theorem quiet_withName (c : Session) (track : TrackId) (name : StringId) :
    Quiet c (c.withName track name) where
  settings := rfl
  vocabulary := rfl
  placements := rfl
  reserved _ r h := ⟨r, h, rfl⟩
  row id row h := by
    rw [row?_withName, h]
    split
    · exact ⟨name, rfl⟩
    · exact ⟨row.name, rfl⟩
  rows := by simp [withName, rows]
  args := rfl
  owner := by
    funext s
    cases s <;> rfl
  primary := by
    funext s
    cases s <;> rfl
  lifetimes := .refl _
  sound := id

theorem Quiet.trans {a b c : Session} (x : Quiet a b) (y : Quiet b c) : Quiet a c where
  settings := y.settings.trans x.settings
  vocabulary := y.vocabulary.trans x.vocabulary
  placements := y.placements.trans x.placements
  reserved := (x.extends.trans y.extends).reserved
  row := (x.extends.trans y.extends).row
  rows := y.rows.trans x.rows
  args := y.args.trans x.args
  owner := y.owner.trans x.owner
  primary := y.primary.trans x.primary
  lifetimes := x.lifetimes.trans y.lifetimes
  sound := y.sound ∘ x.sound

theorem quiet_reserve (u : Uuid) (r : Reservation) (c : Session) : Quiet c (c.reserve u r) := by
  have announced : Quiet c { c with reservations := (c.reservations.reserve u r).2 } := by
    apply quiet_reservations c _
    intro v old hold
    have hold : c.reservations.get? v = some old := hold
    rw [Reservations.get?_reserve]
    by_cases hv : v = u
    · subst hv
      rw [if_pos rfl, hold]
      refine ⟨_, rfl, ?_⟩
      dsimp only [Option.elim]
      split
      · exact Reservation.still_merge old r
      · rfl
    · rw [if_neg hv]
      exact ⟨old, hold, rfl⟩
  unfold Catalog.reserve
  dsimp only
  split
  · exact announced.trans (quiet_withTally _ _)
  · exact announced

theorem quiet_sample (u : Uuid) (sequence : Sequence) (value : Int64) (c : Session) :
    Quiet c (c.sample u sequence value).2 := by
  apply quiet_reservations c _
  intro v old hold
  have hold : c.reservations.get? v = some old := hold
  cases hu : c.reservations.get? u with
  | none => exact ⟨old, hold, rfl⟩
  | some r =>
    dsimp only
    split
    next =>
      dsimp only
      split
      next =>
        rw [Reservations.get?, Registry.get?_insert]
        split
        next hv =>
          subst hv
          rw [hold] at hu
          cases hu
          exact ⟨_, rfl, rfl⟩
        next => exact ⟨old, hold, rfl⟩
      next => exact ⟨old, hold, rfl⟩
    next => exact ⟨old, hold, rfl⟩

theorem quiet_clear (sequence : Sequence) (c : Session) : Quiet c (c.clear sequence) := by
  apply quiet_reservations c _
  intro v old hold
  have hold : c.reservations.get? v = some old := hold
  rw [Reservations.get?_clear, hold]
  refine ⟨_, rfl, ?_⟩
  dsimp only
  split <;> rfl

end Quiet

end Session
end TraceTracks
