import TraceTracks.Proofs.Renewal

/-! A look-up that failed, tried again on a storage that works. The rows of the second attempt are
not those that an undisturbed one would have made, so the two are compared uuid by uuid: what was
remembered, below whose row, on behalf of which entity, under which name and with which arguments.
All agree but on the uuid at which the first attempt broke off. -/
namespace TraceTracks

/-- What a second attempt does not make good: arguments of a track that stand there twice, or a
track that was remembered before it was named. -/
inductive Scar
  | twice (uuid : Uuid)
  | unnamed (uuid : Uuid)
  deriving DecidableEq

namespace Session

section Strewn

/-- What a failed attempt left behind, among rows that nobody remembers. -/
structure Strewn (c d : Session) : Prop where
  settings : d.settings = c.settings
  vocabulary : d.vocabulary = c.vocabulary
  reservations : d.reservations = c.reservations
  placements : d.placements = c.placements
  estate : d.estate = c.estate
  primary : d.primary? = c.primary?
  row : ∀ id row, c.row? id = some row → d.row? id = some row
  args : d.argsOf = c.argsOf
  counts : ∀ cut : Cut, c.countOf cut.anomaly ≤ d.countOf cut.anomaly

variable {held : List TrackId} {a b c d : Session} {u : Uuid} {r : Reservation} {p : Placement}

theorem Strewn.refl (c : Session) : Strewn c c :=
  ⟨rfl, rfl, rfl, rfl, rfl, rfl, fun _ _ h => h, rfl, fun _ => Nat.le_refl _⟩

theorem Strewn.trans (h : Strewn a b) (h' : Strewn b c) : Strewn a c where
  settings := h'.settings.trans h.settings
  vocabulary := h'.vocabulary.trans h.vocabulary
  reservations := h'.reservations.trans h.reservations
  placements := h'.placements.trans h.placements
  estate := h'.estate.trans h.estate
  primary := h'.primary.trans h.primary
  row id row hrow := h'.row id row (h.row id row hrow)
  args := h'.args.trans h.args
  counts cut := Nat.le_trans (h.counts cut) (h'.counts cut)

theorem owner?_of_estate (estate : d.estate = c.estate) : d.owner? = c.owner? := by
  have owners : d.owners = c.owners := congrArg Prod.fst estate
  funext s
  cases s <;> simp only [owner?, owners]

theorem Strewn.placement?_eq (h : Strewn c d) : d.placement? = c.placement? := by
  unfold Catalog.placement?
  rw [h.placements]

theorem Strewn.reservation?_eq (h : Strewn c d) : d.reservation? = c.reservation? := by
  unfold Catalog.reservation?
  rw [h.reservations]

theorem Strewn.upholds (h : Strewn c d) : Upholds c d where
  settings := h.settings
  vocabulary := h.vocabulary
  reserved u r reserved := ⟨r, h.reservation?_eq ▸ reserved, rfl⟩
  placed u p placed := h.placement?_eq ▸ placed
  rank u _ := by rw [h.placements]
  row id row hrow := ⟨row.name, h.row id row hrow⟩
  args u p _ := by rw [h.args]
  owner s v owner := owner?_of_estate h.estate ▸ owner
  primary s id primary := h.primary ▸ primary
  counts := h.counts

theorem strewn_countCuts (cuts : List Cut) (c : Session) : Strewn c (c.countCuts cuts) := by
  have counts (cut : Cut) : c.countOf cut.anomaly ≤ countOf (c.countCuts cuts) cut.anomaly := by
    rw [countOf_countCuts]
    exact Nat.le_add_right _ _
  rw [countCuts_eq] at counts ⊢
  exact ⟨rfl, rfl, rfl, rfl, rfl, rfl, fun _ _ h => h, rfl, counts⟩

theorem Lodged.strewn (x : Lodged c u r p d) (estate : d.estate = c.estate) : Strewn c d where
  settings := x.settings
  vocabulary := x.vocabulary
  reservations := x.reservations
  placements := x.placements
  estate := estate
  primary := by
    funext s
    rw [x.primary]
    split
    next mine =>
      obtain ⟨hpid, rfl⟩ := mine
      have owner := x.owner p.scope
      rw [if_pos ⟨hpid, rfl⟩, owner?_of_estate estate] at owner
      obtain ⟨unowned, -⟩ | ⟨-, primary⟩ := x.mine hpid
      · rw [unowned] at owner
        cases owner
      · exact primary.symm
    next => rfl
  row := x.row
  args := x.args
  counts cut := Nat.le_of_eq (x.counts cut).symm

end Strewn

section Rows

structure Kept (c c' : Session) (id : TrackId) : Prop where
  row : c'.row? id = c.row? id
  args : c'.argsOf id = c.argsOf id

structure Blank (c : Session) (id : TrackId) : Prop where
  name : (c.row? id).map Track.name = some .null
  args : c.argsOf id = []

/-- Rows of the same name. The first may have more arguments than the second for a reason. -/
structure Matched (reason : Prop) (d : Session) (i : TrackId) (s : Session)
    (j : TrackId) : Prop where
  name : (d.row? i).map Track.name = (s.row? j).map Track.name
  args : ∃ again, d.argsOf i = s.argsOf j ++ again ∧ (again ≠ [] → reason)

structure Twin (scar : Scar) (d s : Session) (u : Uuid) (p q : Placement) : Prop where
  scope : p.scope = q.scope
  flavor : p.flavor = q.flavor
  name : scar ≠ .unnamed u → (d.row? p.track).map Track.name = (s.row? q.track).map Track.name
  args : ∃ before again category, ∃ parent : Option Uuid,
    (∀ v, parent = some v → (d.placement? v).isSome ∧ (s.placement? v).isSome) ∧
    s.argsOf q.track = before ++ argsFor s.vocabulary u
      ((parent.bind s.placement?).map Placement.track) category ∧
    d.argsOf p.track = before ++ again ++ argsFor d.vocabulary u
      ((parent.bind d.placement?).map Placement.track) category ∧
    (again ≠ [] → scar = .twice u ∧ d.owner? p.scope = some u)

variable {held held' : List TrackId} {reason : Prop} {scar : Scar} {c c' d d' s s' : Session}
  {i j id : TrackId} {u : Uuid} {r : Reservation} {p q : Placement}

theorem Blank.matched (h : Blank d i) (h' : Blank s j) : Matched reason d i s j :=
  ⟨h.name.trans h'.name.symm, [], by rw [h.args, h'.args]; rfl, fun more => absurd rfl more⟩

theorem Blank.tidy (h : Blank c id) (x : Tidy c c') (args : c'.argsOf id = []) : Blank c' id := by
  obtain ⟨row, hrow, name⟩ := Option.map_eq_some_iff.mp h.name
  refine ⟨?_, args⟩
  rw [x.row id row hrow (args.trans h.args.symm), Option.map_some, name]

theorem Matched.mono (m : Matched reason d i s j) (x : Kept d d' i) (y : Kept s s' j) :
    Matched reason d' i s' j := by
  obtain ⟨name, args⟩ := m
  constructor
  case name => rwa [x.row, y.row]
  case args => rwa [x.args, y.args]

theorem Extends.bind_placement? (x : Extends c c') {parent : Option Uuid}
    (above : ∀ v, parent = some v → (c.placement? v).isSome) :
    parent.bind c'.placement? = parent.bind c.placement? := by
  cases parent with
  | none => rfl
  | some v =>
    obtain ⟨p, placed⟩ := Option.isSome_iff_exists.mp (above v rfl)
    exact (x.placed v p placed).trans placed.symm

theorem Extends.placement?_isSome (x : Extends c c') (placed : (c.placement? u).isSome) :
    (c'.placement? u).isSome := by
  obtain ⟨p, placed⟩ := Option.isSome_iff_exists.mp placed
  rw [x.placed u p placed]
  rfl

theorem Twin.mono (t : Twin scar d s u p q) (x : Kept d d' p.track) (y : Kept s s' q.track)
    (ud : Extends d d') (us : Extends s s') : Twin scar d' s' u p q := by
  obtain ⟨scope, flavor, name, before, again, category, parent, above, args, args', once⟩ := t
  refine ⟨scope, flavor, ?_, before, again, category, parent, ?_, ?_, ?_, fun more => ?_⟩
  · rwa [x.row, y.row]
  · exact fun v hv => ⟨ud.placement?_isSome (above v hv).1, us.placement?_isSome (above v hv).2⟩
  · rw [y.args, us.vocabulary, us.bind_placement? fun v hv => (above v hv).2]
    exact args
  · rw [x.args, ud.vocabulary, ud.bind_placement? fun v hv => (above v hv).1]
    exact args'
  · exact (once more).imp_right (ud.owner p.scope u)

theorem Strewn.kept (x : Strewn c d) (row : (c.row? id).isSome) : Kept c d id := by
  obtain ⟨row, hrow⟩ := Option.isSome_iff_exists.mp row
  exact ⟨(x.row id row hrow).trans hrow.symm, congrFun x.args id⟩

theorem Lodged.kept (x : Lodged c u r p c') (row : (c.row? id).isSome) : Kept c c' id := by
  obtain ⟨row, hrow⟩ := Option.isSome_iff_exists.mp row
  exact ⟨(x.row id row hrow).trans hrow.symm, congrFun x.args id⟩

theorem kept_recorded {q : Option Placement} (other : id ≠ p.track) :
    Kept c (c.recorded u r p q) id :=
  ⟨row?_recorded_of_ne c u r p q other, by rw [argsOf_recorded, if_neg other]⟩

theorem Housed.blank (h : Housed c p c') (x : Lodged c u r p c') (robust : Robust held c)
    (none : c.row? p.track = none) (fits : c'.Fits) : Blank c' p.track := by
  refine ⟨?_, (congrFun x.args _).trans (robust.blank _ none)⟩
  cases h with
  | found primary _ =>
    have row := robust.row_of_primary primary
    rw [none] at row
    cases row
  | made track rows =>
    have room : c.rows.size < UInt32.size := by
      have size := fits.rows
      rwa [rows, Array.size_push] at size
    have index : p.track.index = c.rows.size := by rw [track, Handle.index_ofIndex room]
    rw [row?_eq, rows, index, Array.getElem?_push_size]
    rfl

theorem name_recorded (c : Session) (u : Uuid) (r : Reservation) (p : Placement)
    (q : Option Placement) : ((c.recorded u r p q).row? p.track).map Track.name =
      (c.row? p.track).map fun row => if StringId.isNull r.name then row.name else r.name := by
  unfold recorded
  dsimp only
  split
  · rfl
  · rw [row?_withName, if_pos rfl, Option.map_map]
    rfl

end Rows

section Redone

/-- Two sessions that agree on what was remembered, announced and claimed, and on what stands in the
tables about it, but for the rows where it stands and for a scar. -/
structure Redone (scar : Scar) (d s : Session) : Prop where
  settings : d.settings = s.settings
  vocabulary : d.vocabulary = s.vocabulary
  reservations : d.reservations = s.reservations
  estate : d.estate = s.estate
  keys : d.placements.keys = s.placements.keys
  twin : ∀ u p q, d.placement? u = some p → s.placement? u = some q → Twin scar d s u p q
  idle : ∀ scope u, d.owner? scope = some u → d.placement? u = none → ∃ i j,
    d.primary? scope = some i ∧ s.primary? scope = some j ∧ Matched (scar = .twice u) d i s j

variable {held held' : List TrackId} {scar : Scar} {c c' d d' s s' : Session} {u : Uuid}
  {r : Reservation} {p q : Placement} {parent : Option Uuid} {a b : Option Placement}

theorem Redone.placed_iff (h : Redone scar d s) (u : Uuid) :
    d.placement? u = none ↔ s.placement? u = none := by
  rw [Catalog.placement?, Catalog.placement?, Registry.get?_eq_none_iff, Registry.get?_eq_none_iff,
    h.keys]

theorem Redone.reservation?_eq (h : Redone scar d s) : d.reservation? = s.reservation? := by
  unfold Catalog.reservation?
  rw [h.reservations]

theorem Redone.childScope (h : Redone scar d s) {v : Uuid} (kin : Kin d u r (some v) a)
    (kin' : Kin s u r (some v) b) : a.bind Placement.childScope = b.bind Placement.childScope := by
  obtain ⟨p, placed, rfl⟩ := kin.placed rfl
  obtain ⟨q, placed', rfl⟩ := kin'.placed rfl
  obtain ⟨scope, flavor, -, -⟩ := h.twin v p q placed placed'
  simp only [Option.bind_some, Placement.childScope, scope, flavor]

theorem Robust.redone (robust : Robust held c) (scar : Scar) : Redone scar c c where
  settings := rfl
  vocabulary := rfl
  reservations := rfl
  estate := rfl
  keys := rfl
  twin u p q placed placed' := by
    rw [placed] at placed'
    cases placed'
    obtain ⟨r, parent, q, endures⟩ := robust.endures u p placed
    obtain ⟨before, -, args⟩ := endures.args
    rw [← endures.kin.bind_eq] at args
    exact ⟨rfl, rfl, fun _ => rfl, before, [], r.category, parent,
      fun v hv => ⟨endures.kin.above hv, endures.kin.above hv⟩, args, by rwa [List.append_nil],
      fun more => absurd rfl more⟩
  idle scope u owner _ := by
    obtain ⟨id, primary, -, -⟩ := robust.lodged scope u owner
    exact ⟨id, id, primary, primary, rfl, [], (List.append_nil _).symm, fun more => absurd rfl more⟩

/-- Rows that nobody remembers are of no account. -/
theorem Redone.strewn (h : Redone scar c s) (robust : Robust held c) (x : Strewn c d) :
    Redone scar d s where
  settings := x.settings.trans h.settings
  vocabulary := x.vocabulary.trans h.vocabulary
  reservations := x.reservations.trans h.reservations
  estate := x.estate.trans h.estate
  keys := by rw [x.placements, h.keys]
  twin u p q placed placed' := by
    rw [x.placement?_eq] at placed
    exact (h.twin u p q placed placed').mono (x.kept (robust.row_of_placed placed)) ⟨rfl, rfl⟩
      x.upholds.toExtends (.refl s)
  idle scope u owner absent := by
    rw [owner?_of_estate x.estate] at owner
    rw [x.placement?_eq] at absent
    obtain ⟨i, j, hi, hj, matched⟩ := h.idle scope u owner absent
    exact ⟨i, j, x.primary ▸ hi, hj, matched.mono (x.kept (robust.row_of_primary hi)) ⟨rfl, rfl⟩⟩

theorem Ready.redone_withArgs (ready : Ready held c u r p) (robust : Robust held c)
    (done : List Arg) : Redone (.twice u) (c.withArgs p.track done) c := by
  have same := robust.redone (.twice u)
  have kept {id : TrackId} (other : id ≠ p.track) : Kept c (c.withArgs p.track done) id :=
    ⟨rfl, by rw [argsOf_withArgs, if_neg other]⟩
  have upholds := ready.upholds_withArgs done
  refine ⟨rfl, rfl, rfl, rfl, rfl, fun v p' q placed placed' => ?_, fun scope v owner absent => ?_⟩
  · exact (same.twin v p' q placed placed').mono (kept (ready.free v p' placed)) ⟨rfl, rfl⟩
      upholds.toExtends (.refl c)
  · have owner : c.owner? scope = some v := by
      cases scope <;> exact owner
    obtain ⟨i, j, hi, hj, matched⟩ := same.idle scope v owner absent
    refine ⟨i, j, upholds.primary scope i hi, hj, ?_⟩
    by_cases here : i = p.track
    · subst here
      obtain ⟨-, rfl⟩ := ready.owner_of_primary robust owner hi
      rw [hi] at hj
      cases hj
      exact ⟨rfl, done, by rw [argsOf_withArgs, if_pos rfl], fun _ => rfl⟩
    · exact matched.mono (kept here) ⟨rfl, rfl⟩

theorem Robust.redone_withName (robust : Robust held c) (placed : c.placement? u = some p)
    (name : StringId) : Redone (.unnamed u) c (c.withName p.track name) := by
  have same := robust.redone (.unnamed u)
  have kept {id : TrackId} (other : id ≠ p.track) : Kept c (c.withName p.track name) id :=
    ⟨by rw [row?_withName, if_neg other], rfl⟩
  refine ⟨rfl, rfl, rfl, rfl, rfl, fun v p' q placed' placed₁ => ?_, fun scope v owner absent => ?_⟩
  · have twin := same.twin v p' q placed' placed₁
    have placed₁ : c.placement? v = some q := placed₁
    by_cases here : v = u
    · subst here
      exact ⟨twin.scope, twin.flavor, fun apart => absurd rfl apart, twin.args⟩
    · refine twin.mono ⟨rfl, rfl⟩ (kept fun track => here ?_) (.refl c)
        (quiet_withName c p.track name).extends
      exact robust.unique v u q p placed₁ placed track
  · obtain ⟨i, j, hi, hj, matched⟩ := same.idle scope v owner absent
    rw [hi] at hj
    cases hj
    refine ⟨i, i, hi, (congrFun (quiet_withName c p.track name).primary scope).trans hi,
      matched.mono ⟨rfl, rfl⟩ (kept ?_)⟩
    rintro rfl
    obtain ⟨r, parent, q, endures⟩ := robust.endures u p placed
    cases hpid : r.pid with
    | none => exact endures.apart hpid scope hi
    | some pid =>
      obtain ⟨owner', primary'⟩ := endures.owned (by simp [hpid])
      rw [robust.single _ _ _ hi primary', owner'] at owner
      cases owner
      rw [placed] at absent
      cases absent

end Redone

section Again
variable {held held' : List TrackId} {scar : Scar} {d d₁ s s₁ : Session} {u : Uuid}
  {r : Reservation} {p q : Placement} {parent : Option Uuid} {a b : Option Placement}

structure Lodges (held : List TrackId) (c : Session) (u : Uuid) (r : Reservation) (p : Placement)
    (c₁ : Session) : Prop where
  robust : Robust held c
  absent : c.placement? u = none
  lodged : Lodged c u r p c₁
  housed : Housed c p c₁
  fits : c₁.Fits

theorem Redone.matched (h : Redone scar d s) (x : Lodges held d u r p d₁)
    (y : Lodges held' s u r q s₁)
    (scope : p.scope = q.scope) : Matched (scar = .twice u) d₁ p.track s₁ q.track := by
  have owners := owner?_of_estate h.estate
  by_cases fresh : d.row? p.track = none
  · have fresh' : s.row? q.track = none := by
      cases hpid : r.pid with
      | none => exact y.lodged.fresh hpid
      | some pid =>
        obtain ⟨-, none⟩ | ⟨owner, -⟩ := y.lodged.mine (by simp [hpid])
        · exact none
        rw [← owners, ← scope] at owner
        obtain ⟨unowned, -⟩ | ⟨-, primary⟩ := x.lodged.mine (by simp [hpid])
        · rw [unowned] at owner
          cases owner
        · have row := x.robust.row_of_primary primary
          rw [fresh] at row
          cases row
    exact (x.housed.blank x.lodged x.robust fresh x.fits).matched
      (y.housed.blank y.lodged y.robust fresh' y.fits)
  · obtain ⟨hpid, owner, primary⟩ := x.lodged.owned_of_row (Option.isSome_iff_ne_none.mpr fresh)
    obtain ⟨i, j, hi, hj, matched⟩ := h.idle _ _ owner x.absent
    rw [primary] at hi
    cases hi
    have primary' : s.primary? q.scope = some q.track := by
      refine ((y.lodged.mine hpid).resolve_left fun unowned => ?_).2
      rw [owners, scope, unowned.1] at owner
      cases owner
    rw [scope, primary'] at hj
    cases hj
    exact matched.mono (x.lodged.kept (x.robust.row_of_primary primary))
      (y.lodged.kept (y.robust.row_of_primary primary'))

theorem Redone.lodge (h : Redone scar d s) (x : Lodges held d u r p d₁)
    (y : Lodges held' s u r q s₁)
    (scope : p.scope = q.scope) (estate : d₁.estate = s₁.estate) : Redone scar d₁ s₁ where
  settings := x.lodged.settings.trans (h.settings.trans y.lodged.settings.symm)
  vocabulary := x.lodged.vocabulary.trans (h.vocabulary.trans y.lodged.vocabulary.symm)
  reservations := x.lodged.reservations.trans (h.reservations.trans y.lodged.reservations.symm)
  estate := estate
  keys := by rw [x.lodged.placements, y.lodged.placements, h.keys]
  twin v p' q' placed placed' := by
    rw [x.lodged.placement?_eq] at placed
    rw [y.lodged.placement?_eq] at placed'
    exact (h.twin v p' q' placed placed').mono (x.lodged.kept (x.robust.row_of_placed placed))
      (y.lodged.kept (y.robust.row_of_placed placed'))
      (x.lodged.upholds x.robust.entities).toExtends
      (y.lodged.upholds y.robust.entities).toExtends
  idle scope' v owner absent := by
    rw [x.lodged.owner] at owner
    rw [x.lodged.placement?_eq] at absent
    rw [x.lodged.primary, y.lodged.primary, ← scope]
    split at owner
    next mine =>
      cases owner
      rw [if_pos mine, if_pos mine]
      exact ⟨p.track, q.track, rfl, rfl, h.matched x y scope⟩
    next mine =>
      rw [if_neg mine, if_neg mine]
      obtain ⟨i, j, hi, hj, matched⟩ := h.idle scope' v owner absent
      exact ⟨i, j, hi, hj, matched.mono (x.lodged.kept (x.robust.row_of_primary hi))
        (y.lodged.kept (y.robust.row_of_primary hj))⟩

structure Awaits (held : List TrackId) (c : Session) (u : Uuid) (r : Reservation) (p : Placement)
    (parent : Option Uuid) (q : Option Placement) : Prop where
  robust : Robust held c
  reserved : c.reservation? u = some r
  absent : c.placement? u = none
  ready : Ready held c u r p
  kin : Kin c u r parent q

theorem Awaits.recorded (x : Awaits held d u r p parent a) :
    Robust held (d.recorded u r p a) ∧ Upholds d (d.recorded u r p a) :=
  x.robust.record x.ready x.reserved x.absent x.kin

theorem Awaits.idle_ne (x : Awaits held d u r p parent a) {scope : Scope} {v : Uuid} {i : TrackId}
    (owner : d.owner? scope = some v) (primary : d.primary? scope = some i) (other : v ≠ u) :
    i ≠ p.track := by
  rintro rfl
  exact other (x.ready.owner_of_primary x.robust owner primary).2

theorem Awaits.twin (x : Awaits held d u r p parent a) (y : Awaits held' s u r q parent b)
    (matched : Matched (scar = .twice u) d p.track s q.track) (scope : p.scope = q.scope)
    (flavor : p.flavor = q.flavor) :
    Twin scar (d.recorded u r p a) (s.recorded u r q b) u p q := by
  obtain ⟨again, args, once⟩ := matched.args
  obtain ⟨-, upholds⟩ := x.recorded
  obtain ⟨-, upholds'⟩ := y.recorded
  refine ⟨scope, flavor, fun _ => ?_, s.argsOf q.track, again, r.category,
    parent, fun v hv => ?_, ?_,
    ?_, fun more => ⟨once more, ?_⟩⟩
  · rw [name_recorded, name_recorded]
    split
    · exact matched.name
    · have renamed := congrArg (Option.map fun _ => r.name) matched.name
      rwa [Option.map_map, Option.map_map] at renamed
  · exact ⟨upholds.placement?_isSome (x.kin.above hv), upholds'.placement?_isSome (y.kin.above hv)⟩
  · rw [upholds'.bind_placement? fun v hv => y.kin.above hv, y.kin.bind_eq, vocabulary_recorded,
      argsOf_recorded, if_pos rfl]
  · rw [upholds.bind_placement? fun v hv => x.kin.above hv, x.kin.bind_eq, vocabulary_recorded,
      argsOf_recorded, if_pos rfl, args]
  · -- Only a row that was found has arguments before it is recorded.
    obtain ⟨arg, mem⟩ := List.exists_mem_of_ne_nil again more
    have pid := (x.ready.args arg (args ▸ List.mem_append_right _ mem)).1
    exact upholds.owner p.scope u (x.ready.owned pid).1

theorem Redone.record (h : Redone scar d s) (x : Awaits held d u r p parent a)
    (y : Awaits held' s u r q parent b) (matched : Matched (scar = .twice u) d p.track s q.track)
    (scope : p.scope = q.scope) (flavor : p.flavor = q.flavor) :
    Redone scar (d.recorded u r p a) (s.recorded u r q b) := by
  constructor
  case settings => simp [h.settings]
  case vocabulary => simp [h.vocabulary]
  case reservations => simp [h.reservations]
  case estate => rw [estate_recorded, estate_recorded, h.estate]
  case keys =>
    have absent : d.placements.get? u = none := x.absent
    have absent' : s.placements.get? u = none := y.absent
    rw [placements_recorded, placements_recorded, Registry.keys_insert, Registry.keys_insert,
      Registry.contains, Registry.contains, absent, absent', h.keys]
  case twin =>
    intro v p' q' placed placed'
    rw [placement?_recorded] at placed placed'
    by_cases here : v = u
    · subst here
      rw [if_pos rfl] at placed placed'
      cases placed
      cases placed'
      exact x.twin y matched scope flavor
    · rw [if_neg here] at placed placed'
      exact (h.twin v p' q' placed placed').mono (kept_recorded (x.ready.free v p' placed))
        (kept_recorded (y.ready.free v q' placed')) x.recorded.2.toExtends y.recorded.2.toExtends
  case idle =>
    intro scope' v owner absent
    rw [owner?_recorded] at owner
    rw [placement?_recorded] at absent
    rw [primary?_recorded, primary?_recorded]
    split at absent
    next => cases absent
    next other =>
    obtain ⟨i, j, hi, hj, matched⟩ := h.idle scope' v owner absent
    have owner' : s.owner? scope' = some v := owner?_of_estate h.estate ▸ owner
    exact ⟨i, j, hi, hj, matched.mono (kept_recorded (x.idle_ne owner hi other))
      (kept_recorded (y.idle_ne owner' hj other))⟩

theorem lodges_situate (robust : Robust held d) (absent : d.placement? u = none)
    (fits : Fits (left (Catalog.situate u r a d))) : ∃ p, ∃ d₁ : Session,
      Catalog.situate u r a d = .ok p d₁ ∧ Lodges held d u r p d₁ ∧
        Estate.lodging u r a d.estate = .ok (p.scope, p.flavor) d₁.estate := by
  obtain ⟨p, d₁, made, lodged⟩ := robust.situate a fits
  rw [made] at fits
  obtain ⟨housed, place⟩ := situate_lodges made
  exact ⟨p, d₁, made, ⟨robust, absent, lodged, housed, fits⟩, place⟩

theorem Lodges.awaits (x : Lodges held d u r p d₁) (reserved : d.reservation? u = some r)
    (kin : Kin d u r parent a) : Awaits held d₁ u r p parent a where
  robust := x.robust.lodge x.lodged x.absent
  reserved := (congrFun x.lodged.reservation?_eq u).trans reserved
  absent := (congrFun x.lodged.placement?_eq u).trans x.absent
  ready := x.lodged.ready x.robust x.absent
  kin := kin.mono (x.lodged.upholds x.robust.entities) reserved
    ((congrFun x.lodged.reservation?_eq u).trans reserved) rfl

theorem lodging_congr (passes : a.bind Placement.childScope = b.bind Placement.childScope) :
    Estate.lodging u r a = Estate.lodging u r b := by
  unfold Estate.lodging
  rw [passes]

theorem Redone.settle (h : Redone scar d s) (x : Robust held d) (y : Robust held' s)
    (reserved : d.reservation? u = some r) (absent : d.placement? u = none)
    (kin : Kin d u r parent a) (kin' : Kin s u r parent b)
    (passes : a.bind Placement.childScope = b.bind Placement.childScope)
    (fits : Fits (left (Catalog.settle u r a d))) (fits' : Fits (left (Catalog.settle u r b s))) :
    ∃ p, ∃ d' : Session, ∃ q, ∃ s' : Session, Catalog.settle u r a d = .ok p d' ∧
      Catalog.settle u r b s = .ok q s' ∧ Redone scar d' s' := by
  have grows (c : Session) (q : Option Placement) : Grows (left (Catalog.situate u r q c))
      (left (Catalog.settle u r q c)) := left_bind_grows (fun p => growing_record u r p q) c
  obtain ⟨p, d₁, made, lodges, place⟩ := lodges_situate x absent (fits.of_grows (grows d a))
  obtain ⟨q, s₁, made', lodges', place'⟩ :=
    lodges_situate y ((h.placed_iff u).mp absent) (fits'.of_grows (grows s b))
  rw [lodging_congr passes, h.estate, place'] at place
  injection place with same estate
  injection same with scope flavor
  have awaits := lodges.awaits reserved kin
  have awaits' := lodges'.awaits (h.reservation?_eq ▸ reserved) kin'
  refine ⟨p, d₁.recorded u r p a, q, s₁.recorded u r q b, ?_, ?_, ?_⟩
  · exact (Act.bind_ok made _).trans (record_ok awaits.ready.row u r a)
  · exact (Act.bind_ok made' _).trans (record_ok awaits'.ready.row u r b)
  · exact (h.lodge lodges lodges' scope.symm estate.symm).record awaits awaits'
      (h.matched lodges lodges' scope.symm) scope.symm flavor.symm

end Again

section Outage
variable {held held' : List TrackId} {c c' c₁ d : Session} {u : Uuid} {r : Reservation}
  {p : Placement} {parent : Option Uuid} {q : Option Placement}

inductive Outage (c : Session) (u : Uuid) (r : Reservation) (p : Placement) (q : Option Placement)
    (c₁ : Session) : Prop
  | torn (done rest : List Arg) (more : rest ≠ [])
      (split : argsFor c.vocabulary u (q.map Placement.track) r.category = done ++ rest)
      (left : c₁ = c.withArgs p.track done)
  | unnamed (left : c₁ = c.recorded u { r with name := .null } p q)

theorem outage_of_record {c c₁ : Trial} {e : Fault} (present : (row? c.inner p.track).isSome)
    (failed : Catalog.record u r p q c = .error e c₁) : Outage c.inner u r p q c₁.inner := by
  have ends := ends_record present u r q
  rw [failed] at ends
  obtain ⟨⟨done, rest, more, split, same⟩ | same, -⟩ := ends.of_error
  · exact .torn done rest more split same
  · exact .unnamed same

/-- The uuid has no track yet, and then the row is still to be recorded; or it has its track, and
then only the name is missing. -/
theorem Outage.scars (o : Outage c u r p q c₁) (x : Awaits held c u r p parent q) :
    (c₁.placement? u = none ∧ ∀ d, Strewn c₁ d → Redone (.twice u) d c) ∨
      (c₁.placement? u = some p ∧ ∀ d, Strewn c₁ d →
        Redone (.unnamed u) d (c.recorded u r p q)) := by
  cases o with
  | torn done rest more split left =>
    subst left
    have robust := (x.robust.scrawl x.ready (x.robust.descriptors u r x.reserved) split more).1
    exact .inl ⟨x.absent, fun d => (x.ready.redone_withArgs x.robust done).strewn robust⟩
  | unnamed left =>
    subst left
    have robust := (x.robust.remember x.ready x.reserved x.absent x.kin).1
    have placed := placement?_recorded_self c u { r with name := .null } p q
    refine .inr ⟨placed, fun d => Redone.strewn ?_ robust⟩
    cases hn : StringId.isNull r.name with
    | true =>
      have same : { r with name := .null } = r := by rw [← StringId.isNull_iff.mp hn]
      rw [same] at robust ⊢
      exact robust.redone _
    | false =>
      have named : c.recorded u r p q =
          (c.recorded u { r with name := .null } p q).withName p.track r.name := by
        simp only [recorded, hn]
        rfl
      rw [named]
      exact robust.redone_withName placed r.name

theorem Lodges.settle_again (x : Lodges held c u r p c') (awaits : Awaits held c' u r p parent q)
    (place : Estate.lodging u r q c.estate = .ok (p.scope, p.flavor) c'.estate)
    (redone : ∀ d, Strewn c₁ d → Redone (.twice u) d c') (strewn : Strewn c₁ d)
    (robust : Robust held' d) (absent : d.placement? u = none) (kin : Kin d u r parent q)
    (fits : Fits (left (Catalog.settle u r q d))) : ∃ p', ∃ d' : Session,
      Catalog.settle u r q d = .ok p' d' ∧ Redone (.twice u) d' (c'.recorded u r p q) := by
  have grows : Grows (left (Catalog.situate u r q d)) (left (Catalog.settle u r q d)) :=
    left_bind_grows (fun p => growing_record u r p q) d
  obtain ⟨p', d₁, made, lodges, place'⟩ := lodges_situate robust absent (fits.of_grows grows)
  have before := redone d strewn
  rw [before.estate, Estate.lodging_again place x.fits.estate] at place'
  injection place' with same estate
  injection same with scope flavor
  have after := redone d₁
    (strewn.trans (lodges.lodged.strewn (estate.symm.trans before.estate.symm)))
  have reserved : d.reservation? u = some r := before.reservation?_eq ▸ awaits.reserved
  have awaits' := lodges.awaits reserved kin
  refine ⟨p', d₁.recorded u r p' q, ?_, after.record awaits' awaits ?_ scope.symm flavor.symm⟩
  · exact (Act.bind_ok made _).trans (record_ok awaits'.ready.row u r q)
  cases hpid : r.pid with
  | none =>
    exact (lodges.housed.blank lodges.lodged robust (lodges.lodged.fresh hpid) lodges.fits).matched
      (x.housed.blank x.lodged x.robust (x.lodged.fresh hpid) x.fits)
  | some pid =>
    have hpid : r.pid.isSome := by simp [hpid]
    obtain ⟨owner, primary⟩ := awaits'.ready.owned hpid
    obtain ⟨i, j, hi, hj, matched⟩ := after.idle _ u owner awaits'.absent
    rw [primary] at hi
    rw [← scope, (awaits.ready.owned hpid).2] at hj
    cases hi
    cases hj
    exact matched

end Outage
end Session
end TraceTracks
