import TraceTracks.Proofs.Containment
import TraceTracks.Proofs.Hierarchy

/-! Histories whose storage refuses calls now and then. Whichever calls these are, what was
remembered stays, its rows say where they belong, nothing is announced but by the announcements, and
each failure is that of the call that was refused. -/
namespace TraceTracks

section Preamble
variable {w : Vocabulary} {u : Uuid} {before rest : List Arg} {key : StringId}

theorem mem_preamble {arg : Arg} : arg ∈ preamble w u ↔
    arg = ⟨w.source, .string w.descriptor⟩ ∨ arg = ⟨w.sourceId, .integer u.toInt64⟩ := by
  simp [preamble]

/-- What was written under a key in earlier attempts is what was written in the last one. -/
theorem find?_append_of_agree {value : ArgValue} (own : ∀ arg ∈ before, arg ∈ preamble w u)
    (agree : ∀ arg ∈ preamble w u, arg.key = key → arg.value = value)
    (written : (rest.find? (·.key = key)).map Arg.value = some value) :
    ((before ++ rest).find? (·.key = key)).map Arg.value = some value := by
  rw [List.find?_append]
  cases found : before.find? (·.key = key) with
  | none => exact written
  | some arg =>
    have same : arg.key = key := by simpa using List.find?_some found
    exact congrArg some (agree arg (own arg (List.mem_of_find?_eq_some found)) same)

theorem find?_append_of_apart (own : ∀ arg ∈ before, arg ∈ preamble w u) (source : w.source ≠ key)
    (sourceId : w.sourceId ≠ key) :
    (before ++ rest).find? (·.key = key) = rest.find? (·.key = key) := by
  have none : before.find? (·.key = key) = .none := by
    rw [List.find?_eq_none]
    intro arg mem
    rcases mem_preamble.mp (own arg mem) with rfl | rfl
    · simpa using source
    · simpa using sourceId
  rw [List.find?_append, none]
  rfl

end Preamble

namespace Reservation

def terms (r : Reservation) : Reservation := { r with total := 0 }

theorem terms_renew {old old' : Reservation} (h : old'.terms = old.terms) (r : Reservation) :
    (if old'.sameTrack r then old'.merge r else old').terms =
      (if old.sameTrack r then old.merge r else old).terms := by
  obtain ⟨total, rfl⟩ : ∃ total, old' = { old with total := total } := by
    cases old
    cases old'
    simp only [terms, mk.injEq, and_true] at h
    obtain ⟨rfl, rfl, rfl, rfl, rfl, rfl, rfl⟩ := h
    exact ⟨_, rfl⟩
  change (if old.sameTrack r then merge { old with total := total } r
    else { old with total := total }).terms = _
  split
  · cases seen : old.firstSeen <;> cases again : r.firstSeen <;>
      simp only [merge, terms, seen, again]
  · rfl

end Reservation

def Reservations.announce (rs : Reservations) : Move → Reservations
  | .command (.announce uuid descriptor) => (rs.reserve uuid descriptor.reservation).2
  | _ => rs

namespace Session
variable {c c' : Session} {u : Uuid} {p : Placement} {r : Reservation} {parent : Option Uuid}
  {q : Option Placement}

/-- What the tables say about a uuid that was remembered: whose row this is, and below whose row it
is put and why. -/
structure Attested (c : Session) (u : Uuid) (p : Placement) (r : Reservation)
    (parent : Option Uuid) : Prop where
  row : (c.row? p.track).isSome
  source : c.backend.store.arg? p.track c.vocabulary.source = some (.string c.vocabulary.descriptor)
  uuid : c.rowUuid? p.track = some u
  category : c.backend.store.arg? p.track c.vocabulary.category =
    (StringId.nonNull? r.category).map .string
  rowParent : c.rowParent? p.track = (parent.bind c.placement?).map Placement.track
  args : ∃ before, (∀ arg ∈ before, arg ∈ preamble c.vocabulary u) ∧ c.argsOf p.track = before ++
    argsFor c.vocabulary u ((parent.bind c.placement?).map Placement.track) r.category
  above : ∀ v, parent = some v → (c.placement? v).isSome ∧ (v ≠ 0 → v = r.parent) ∧
    (v = 0 → r.pid = none ∧ u ≠ 0)
  orphan : parent = none → r.pid.isSome ∨ u = 0 ∨ c.Ancestor u 0
  due : parent = c.effectiveParent? u ∨ c.Dropped

theorem Endures.attested (h : Endures c u p r parent q) (words : c.vocabulary.Distinct) :
    Attested c u p r parent := by
  obtain ⟨before, own, args⟩ := h.args
  have args : c.backend.store.args.ofTrack p.track = _ := args
  have apart := words
  simp only [Vocabulary.Distinct, List.nodup_cons, List.mem_cons, List.not_mem_nil, or_false,
    not_or] at apart
  obtain ⟨⟨si, sp, sc⟩, ⟨ip, ic⟩, -, -⟩ := apart
  have above := h.kin.bind_eq
  constructor
  case row => exact h.row
  case source =>
    rw [Store.arg?, Args.get?, args]
    refine find?_append_of_agree own (fun arg mem key => ?_) (by simp [argsFor])
    rcases mem_preamble.mp mem with rfl | rfl
    · rfl
    · exact absurd key.symm si
  case uuid =>
    have named : ((before ++ argsFor c.vocabulary u (q.map Placement.track) r.category).find?
        (·.key = c.vocabulary.sourceId)).map Arg.value = some (.integer u.toInt64) := by
      refine find?_append_of_agree own (fun arg mem key => ?_) (find?_argsFor_sourceId words)
      rcases mem_preamble.mp mem with rfl | rfl
      · exact absurd key si
      · rfl
    rw [rowUuid?, Store.arg?, Args.get?, args, named]
    simp [ArgValue.integer?]
  case category =>
    rw [Store.arg?, Args.get?, args, find?_append_of_apart own sc ic, find?_argsFor_category words]
  case rowParent =>
    rw [rowParent?, Store.arg?, Args.get?, args, find?_append_of_apart own sp ip,
      find?_argsFor_parentTrackId words, above]
    cases q with
    | none => rfl
    | some q => simp [ArgValue.integer?, Handle.ofInt64_index]
  case args => exact ⟨before, own, above ▸ args⟩
  case above =>
    intro v hv
    refine ⟨h.kin.above hv, h.kin.declared v hv, ?_⟩
    rintro rfl
    exact h.kin.default hv
  case orphan => exact h.kin.orphan
  case due => exact h.kin.due

theorem Robust.parentOf?_eq (h : Robust [] c) (words : c.vocabulary.Distinct)
    (placed : c.placement? u = some p) (attested : Attested c u p r parent) :
    c.parentOf? u = parent := by
  rw [parentOf?, placed]
  change (c.rowParent? p.track).bind c.rowUuid? = parent
  rw [attested.rowParent]
  cases parent with
  | none => rfl
  | some v =>
    obtain ⟨p', placed'⟩ := Option.isSome_iff_exists.mp (attested.above v rfl).1
    obtain ⟨r', parent', q', endures⟩ := h.endures v p' placed'
    rw [Option.bind_some, placed']
    exact (endures.attested words).uuid

/-- The parents that the rows name are acyclic, since each was remembered before its children. -/
theorem Robust.acyclic (h : Robust [] c) (words : c.vocabulary.Distinct) (u : Uuid) :
    ¬Relation.TransGen (fun v w => c.parentOf? v = some w) u u := by
  have sinks {v w : Uuid} (link : c.parentOf? v = some w) :
      c.placements.rank w < c.placements.rank v := by
    cases placed : c.placement? v with
    | none =>
      rw [parentOf?, placed] at link
      cases link
    | some p =>
      obtain ⟨r, parent, q, endures⟩ := h.endures v p placed
      rw [h.parentOf?_eq words placed (endures.attested words)] at link
      exact endures.rank w link
  have falls {v w : Uuid} (above : Relation.TransGen (fun v w => c.parentOf? v = some w) v w) :
      c.placements.rank w < c.placements.rank v := by
    induction above with
    | single link => exact sinks link
    | tail _ link ih => exact Nat.lt_trans (sinks link) ih
  exact fun loop => Nat.lt_irrefl _ (falls loop)

structure Unscathed (c : Session) : Prop where
  apart : ∀ u v p q, c.placement? u = some p → c.placement? v = some q → p.track = q.track → u = v
  attested : ∀ u p, c.placement? u = some p →
    ∃ r, c.reservation? u = some r ∧ Attested c u p r (c.parentOf? u)
  acyclic : ∀ u, ¬Relation.TransGen (fun v w => c.parentOf? v = some w) u u

theorem Robust.unscathed (h : Robust [] c) (words : c.vocabulary.Distinct) : Unscathed c where
  apart := h.unique
  attested u p placed := by
    obtain ⟨r, parent, q, endures⟩ := h.endures u p placed
    have attested := endures.attested words
    rw [← h.parentOf?_eq words placed attested] at attested
    exact ⟨r, endures.reserved, attested⟩
  acyclic := h.acyclic words

theorem Sound.robust (s : Sound [] [] c) (descriptors : c.reservations.OfDescriptors) :
    Robust [] c := by
  have absent (u : Uuid) : c.placement? u = none := s.absent_iff.mpr List.not_mem_nil
  have untaken {u : Uuid} {p : Placement} (t : Taken [] c u p) : False := by
    rcases t with placed | ⟨k, mem, -, -⟩
    · rw [absent] at placed
      cases placed
    · cases mem
  have unowned {scope : Scope} {u : Uuid} (owner : c.owner? scope = some u) : False :=
    let ⟨_, t, _⟩ := s.owner scope u owner
    untaken t
  have noPrimary {scope : Scope} {id : TrackId} (primary : c.primary? scope = some id) : False :=
    let ⟨_, owner⟩ := Option.isSome_iff_exists.mp (s.entities.primary scope id primary)
    unowned owner
  constructor
  case entities => exact s.entities
  case descriptors => exact descriptors
  case endures => exact fun u p placed => (untaken (.placed placed)).elim
  case lodged => exact fun _ _ owner => (unowned owner).elim
  case single => exact fun _ _ _ primary => (noPrimary primary).elim
  case unique => exact fun u _ p _ placed => (untaken (.placed placed)).elim
  case blank => exact fun id _ => s.bare id fun u p placed => (untaken (.placed placed)).elim
  case keeps => exact List.forall_mem_nil _
  case distinct => exact List.nodup_nil

section Accounts
variable {rs : Reservations}

/-- Nothing is announced but what is in a ledger, except that the default track may have been
announced before that. Running totals are not compared. -/
def Accounts (c : Session) (rs : Reservations) : Prop :=
  ∀ u, (c.reservation? u).map Reservation.terms = (rs.get? u).map Reservation.terms ∨
    (u = 0 ∧ c.reservation? 0 = some c.defaultReservation)

theorem Accounts.reserve (h : Accounts c rs) (u : Uuid) (r : Reservation) :
    Accounts (c.reserve u r) (rs.reserve u r).2 := by
  have vocabulary : (c.reserve u r).defaultReservation = c.defaultReservation := by
    rw [Catalog.defaultReservation, (quiet_reserve u r c).vocabulary]
    rfl
  intro v
  have reserved := Catalog.reservation?_reserve u r c v
  rcases h v with same | ⟨rfl, default⟩
  · refine .inl ?_
    rw [reserved, Reservations.get?_reserve]
    split
    next here =>
      subst here
      cases old : c.reservation? v with
      | none =>
        rw [old, Option.map_none, eq_comm, Option.map_eq_none_iff] at same
        rw [same]
      | some r₁ =>
        rw [old, Option.map_some, eq_comm, Option.map_eq_some_iff] at same
        obtain ⟨r₂, old', same⟩ := same
        rw [old']
        exact congrArg some (Reservation.terms_renew same.symm r)
    next => exact same
  · refine .inr ⟨rfl, ?_⟩
    rw [reserved, vocabulary]
    split
    next here =>
      rw [← here, default]
      dsimp only [Option.elim]
      split <;> rfl
    next => exact default

theorem Accounts.lookUp (h : Accounts c rs) (announced : c.Announces c')
    (vocabulary : c'.vocabulary = c.vocabulary) : Accounts c' rs := by
  have default : c'.defaultReservation = c.defaultReservation := by
    rw [Catalog.defaultReservation, vocabulary]
    rfl
  intro v
  rcases announced v with same | ⟨rfl, -, made⟩
  · refine (h v).imp (congrArg _ same).trans ?_
    rintro ⟨rfl, made⟩
    exact ⟨rfl, (same.trans made).trans (congrArg some default.symm)⟩
  · exact .inr ⟨rfl, made.trans (congrArg some default.symm)⟩

theorem Accounts.of_totals (h : Accounts c rs) {f : Uuid → Reservation → Reservation}
    (mapped : ∀ v, c'.reservation? v = (c.reservation? v).map (f v))
    (terms : ∀ v r, (f v r).terms = r.terms) (plain : ∀ v r, r.incremental = false → f v r = r)
    (vocabulary : c'.vocabulary = c.vocabulary) : Accounts c' rs := by
  intro v
  rcases h v with same | ⟨rfl, made⟩
  · refine .inl ?_
    rw [mapped, Option.map_map, ← same]
    exact congrArg (fun g => (c.reservation? v).map g) (funext (terms v))
  · refine .inr ⟨rfl, ?_⟩
    rw [mapped, made, Option.map_some, plain 0 _ rfl, Catalog.defaultReservation,
      Catalog.defaultReservation, vocabulary]

theorem Accounts.sample (h : Accounts c rs) (u : Uuid) (sequence : Sequence) (value : Int64) :
    Accounts (c.sample u sequence value).2 rs := by
  refine h.of_totals (f := fun v r => if v = u ∧ (r.accepts sequence && r.incremental) then
    { r with total := r.absolute value } else r) (fun v => ?_) (fun v r => ?_)
    (fun v r plain => ?_) rfl
  · simp only [Catalog.sample, Catalog.reservation?, Reservations.get?_sample]
    by_cases here : v = u
    · simp only [here, if_true, true_and]
    · simp only [here, if_false, false_and]
      exact Option.map_id'.symm
  · split <;> rfl
  · simp [plain]

theorem Accounts.clear (h : Accounts c rs) (sequence : Sequence) :
    Accounts (c.clear sequence) rs := by
  refine h.of_totals (f := fun _ r => if r.incremental && r.sequence == sequence then
    { r with total := 0 } else r) (fun v => ?_) (fun v r => ?_) (fun v r plain => ?_) rfl
  · simp only [Catalog.clear, Catalog.reservation?, Reservations.get?_clear]
  · split <;> rfl
  · simp [plain]

end Accounts

section LookUp
variable {c : Trial}
open Catalog (Ends)

theorem withstands_resolve (robust : Robust [] c.inner) (limit : Nat) (u : Uuid)
    (fits : Fits (Act.left (Catalog.resolve limit .empty u c)).inner) :
    Withstands [] [] u c (Catalog.resolve limit .empty u c) :=
  Resolution.withstands (Catalog.resolution limit .empty Trail.level_empty u c) robust
    List.not_mem_nil (fun mem => by cases mem) fits

theorem ends_nameAfter (robust : Robust [] c.inner) (u : Uuid) (event : StringId)
    {found : Option Placement} (present : ∀ p, found = some p → (row? c.inner p.track).isSome) :
    Ends c.backend (fun _ => After [] [] c.inner) (After [] [] c.inner)
      (Catalog.nameAfter u event found c) := by
  cases found with
  | none => exact .ok robust.after_self (.of_same rfl rfl)
  | some p =>
    obtain ⟨row, hrow⟩ := Option.isSome_iff_exists.mp (present p rfl)
    have named : Ends c.backend (fun _ => After [] [] c.inner) (After [] [] c.inner)
        (Catalog.nameIfUnnamed p.track event c) := by
      have same {s : Session} (hs : s = c.inner) : After [] [] c.inner s := by
        subst hs
        exact robust.after_self
      refine ((ends_name hrow).mono (fun _ _ => id) fun _ => same).bind fun name c₁ ⟨_, hc⟩ => ?_
      have still := same hc
      split
      · refine (ends_setName (by simp [hc, hrow]) event).mono (fun _ s renamed => ?_)
          fun s hs => same (hs.trans hc)
        rw [renamed]
        exact still.trans (still.robust.after_quiet (quiet_withName _ p.track event)
          (fun _ => Nat.le_refl _) rfl)
      · exact .ok still (.of_same rfl rfl)
    unfold Catalog.nameAfter
    dsimp only
    rw [Act.get_bind]
    split
    · exact named.bind fun _ _ after => .ok after (.of_same rfl rfl)
    · exact .ok robust.after_self (.of_same rfl rfl)

theorem ends_track? (robust : Robust [] c.inner) (u : Uuid) (event : StringId)
    (fits : Fits (Act.left (Catalog.track? u event c)).inner) :
    Ends c.backend (fun _ => After [] [] c.inner) (After [] [] c.inner)
      (Catalog.track? u event c) := by
  rw [Catalog.track?_eq_bind] at fits ⊢
  have roomy := fits.of_grows (grows_trial.left_bind _ (grows_trial.nameAfter u event) c)
  refine Ends.bind (withstands_resolve robust _ u roomy) fun found c₁ ⟨after, same⟩ => ?_
  refine (ends_nameAfter after.robust u event fun p hp => ?_).mono (fun _ _ => after.trans)
    fun _ => after.trans
  exact after.robust.row_of_placed (same.symm.trans hp)

theorem ends_defaultTrackId (robust : Robust [] c.inner)
    (fits : Fits (Act.left (Catalog.defaultTrackId c)).inner) :
    Ends c.backend (fun _ => After [] [] c.inner) (After [] [] c.inner)
      (Catalog.defaultTrackId c) := by
  rw [Catalog.defaultTrackId_eq_map] at fits ⊢
  rw [Act.left_map] at fits
  have roomy := fits.of_grows (grows_trial.left_bind _ grows_trial.elseMakeDefault c)
  have calls := Catalog.resolution c.settings.maxAncestors .empty Trail.level_empty 0 c
  have ends := withstands_resolve robust c.settings.maxAncestors 0 roomy
  suffices made : Ends c.backend (fun _ => After [] [] c.inner) (After [] [] c.inner)
      (Catalog.defaultTrack (Catalog.resolve c.settings.maxAncestors .empty 0) c) from
    made.map fun _ _ => id
  cases found : (Catalog.resolve c.settings.maxAncestors .empty 0 :
      Act (Faulty Trace) (Option Placement)) c with
  | error e c₁ =>
    rw [found] at ends
    rw [Catalog.defaultTrack_of_error found]
    exact .error ends.of_error.1 ends.of_error.2
  | ok o c₁ =>
  rw [found] at ends calls
  cases o with
  | some p =>
    rw [Catalog.defaultTrack_of_found found]
    exact .ok ends.of_ok.1.1 ends.of_ok.2
  | none =>
    obtain ⟨absent, unreserved, rfl⟩ := calls.of_none
    have made := Catalog.defaultTrack_of_none found
    rw [made]
    exact Ends.mono (places_makeDefault robust absent unreserved List.not_mem_nil
      (show Fits (Act.left (Catalog.makeDefault c₁)).inner from made ▸ fits)) (fun _ _ => And.left)
      fun _ => id

end LookUp
section Commands
variable {c : Trial}

/-- A failure is told with the reason for which the last call was refused; else every call was let
through. -/
def Tells (b b' : Faulty Trace) : Reply → Prop
  | .failed e => Faulty.Broken b b' e
  | _ => Faulty.Granted b b'

structure Weathers (c c' : Trial) (m : Move) : Prop where
  robust : Robust [] c'.inner
  upholds : Upholds c.inner c'.inner
  accounts : ∀ rs, Accounts c.inner rs → Accounts c'.inner (rs.announce m)
  refusal : c'.backend.refusal = c.backend.refusal

theorem After.weathers {c' : Trial} {m : Move} (h : After [] [] c.inner c'.inner)
    (refusal : c'.backend.refusal = c.backend.refusal)
    (silent : ∀ rs, Reservations.announce rs m = rs) :
    Weathers c c' m where
  robust := h.robust
  upholds := h.upholds
  accounts rs accounts := by
    rw [silent]
    exact accounts.lookUp h.announced h.upholds.vocabulary
  refusal := refusal

theorem perform_weathers (robust : Robust [] c.inner) (command : Command)
    (fits : Fits (c.perform command).2.inner) :
    Weathers c (c.perform command).2 (.command command) ∧
      Tells c.backend (c.perform command).2.backend (c.perform command).1 := by
  cases command with
  | announce uuid descriptor =>
    have around := Catalog.reserve_eq_around uuid descriptor.reservation c
    have quiet := quiet_reserve uuid descriptor.reservation c.inner
    have descriptors := robust.descriptors.reserve uuid descriptor
    rw [← Catalog.reservations_reserve] at descriptors
    obtain ⟨robust', upholds⟩ := robust.quiet quiet (fun cut =>
      Nat.le_of_eq (countOf_reserve uuid descriptor.reservation c.inner cut).symm) descriptors
    simp only [Catalog.perform, around]
    exact ⟨⟨robust', upholds, fun rs accounts => accounts.reserve uuid descriptor.reservation, rfl⟩,
      .of_same rfl rfl⟩
  | sample uuid sequence value =>
    have quiet := quiet_sample uuid sequence value c.inner
    obtain ⟨robust', upholds⟩ := robust.quiet quiet (fun _ => Nat.le_refl _)
      (robust.descriptors.sample uuid sequence value)
    exact ⟨⟨robust', upholds, fun rs accounts => accounts.sample uuid sequence value, rfl⟩,
      .of_same rfl rfl⟩
  | clear sequence =>
    have quiet := quiet_clear sequence c.inner
    obtain ⟨robust', upholds⟩ := robust.quiet quiet (fun _ => Nat.le_refl _)
      (robust.descriptors.clear sequence)
    exact ⟨⟨robust', upholds, fun rs accounts => accounts.clear sequence, rfl⟩, .of_same rfl rfl⟩
  | track uuid event =>
    have ends := ends_track? robust uuid event
    unfold Catalog.perform at fits ⊢
    dsimp only at fits ⊢
    generalize Catalog.track? uuid event c = result at *
    cases ends (by cases result <;> exact fits) with
    | ok after granted => exact ⟨after.weathers granted.refusal fun _ => rfl, granted⟩
    | error after broken => exact ⟨after.weathers broken.refusal fun _ => rfl, broken⟩
  | defaultTrack =>
    have ends := ends_defaultTrackId robust
    unfold Catalog.perform at fits ⊢
    dsimp only at fits ⊢
    generalize Catalog.defaultTrackId c = result at *
    cases ends (by cases result <;> exact fits) with
    | ok after granted => exact ⟨after.weathers granted.refusal fun _ => rfl, granted⟩
    | error after broken => exact ⟨after.weathers broken.refusal fun _ => rfl, broken⟩

end Commands
end Session

namespace Trial
open Session (Robust Upholds Accounts Weathers Grows Fits)

def move (c : Trial) : Move → Trial
  | .command command => (c.perform command).2
  | .errand errand => { c with backend.inner := errand.perform c.backend.inner }

def after (c : Trial) (moves : List Move) : Trial := moves.foldl move c

theorem grows_move (c : Trial) (m : Move) : Grows c.inner (c.move m).inner := by
  cases m with
  | errand e => exact Session.grows_errand e c.inner
  | command command =>
    cases command with
    | announce uuid descriptor =>
      rw [move, Catalog.perform, Catalog.reserve_eq_around]
      exact Session.grows_reserve uuid descriptor.reservation c.inner
    | track uuid event => exact Session.grows_trial.perform_track c uuid event
    | defaultTrack => exact Session.grows_trial.perform_defaultTrack c
    | sample uuid sequence value => exact ⟨Nat.le_refl _, .refl _⟩
    | clear sequence => exact ⟨Nat.le_refl _, .refl _⟩

theorem grows_after (c : Trial) (moves : List Move) : Grows c.inner (c.after moves).inner := by
  induction moves generalizing c with
  | nil => exact .refl c.inner
  | cons m moves ih => exact (grows_move c m).trans (ih (c.move m))

theorem move_weathers {c : Trial} (robust : Robust [] c.inner) (m : Move)
    (fits : Fits (c.move m).inner) : Weathers c (c.move m) m := by
  cases m with
  | command command => exact (Session.perform_weathers robust command fits).1
  | errand e =>
    have quiet := Session.quiet_errand e c.inner
    have counts (cut : Cut) : Session.countOf { c.inner with
        backend := e.perform c.inner.backend } cut.anomaly =
          Session.countOf c.inner cut.anomaly := by
      cases e <;> rfl
    obtain ⟨robust', upholds⟩ :=
      robust.quiet quiet (fun cut => Nat.le_of_eq (counts cut).symm) robust.descriptors
    exact ⟨robust', upholds, fun rs accounts => accounts, rfl⟩

theorem after_weathers {c : Trial} {rs : Reservations} (robust : Robust [] c.inner)
    (accounts : Accounts c.inner rs) (moves : List Move) (fits : Fits (c.after moves).inner) :
    Robust [] (c.after moves).inner ∧ Upholds c.inner (c.after moves).inner ∧
      Accounts (c.after moves).inner (moves.foldl Reservations.announce rs) ∧
      (c.after moves).backend.refusal = c.backend.refusal := by
  induction moves generalizing c rs with
  | nil => exact ⟨robust, .refl _, accounts, rfl⟩
  | cons m moves ih =>
    have first := move_weathers robust m (fits.of_grows (grows_after (c.move m) moves))
    obtain ⟨robust', upholds, accounts', refusal⟩ :=
      ih first.robust (first.accounts rs accounts) fits
    exact ⟨robust', first.upholds.trans upholds, accounts', refusal.trans first.refusal⟩

end Trial

namespace History
open Session (Fits Unscathed Accounts Tells)

def trialOpening (h : History) (refusal : Nat → Option Fault) : Trial :=
  Catalog.start h.settings (Faulty.start h.tables refusal)

def trial (h : History) (refusal : Nat → Option Fault) : Trial :=
  (h.trialOpening refusal).after h.moves

theorem trialOpening_eq (h : History) (refusal : Nat → Option Fault) :
    (h.trialOpening refusal).inner = h.opening ∧
      (h.trialOpening refusal).backend.refusal = refusal := by
  rw [trialOpening, Catalog.start_faulty, opening]
  generalize Catalog.start h.settings h.tables = c
  exact ⟨rfl, rfl⟩

def besieged : History where
  settings := .default
  before := [.updateThread 5 4, .intern "level"]
  moves := [.command (.announce 1 (.process 4 .null 1)),
    .command (.announce 2 (.process 4 .null 2)),
    .command (.announce 3 (.thread 1 4 5 .null 1)), .command (.announce 6 (.child 3 .null)),
    .command (.announce 7 (.counter 0 .null ⟨1⟩ 1 true 1)), .command (.track 3 .null),
    .command (.track 6 .null), .command (.track 2 .null), .command (.track 3 .null),
    .errand (.startThread none 5), .command (.track 6 .null), .command (.track 7 .null)]
  room := by decide +kernel

def flaky (n : Nat) : Option Fault :=
  if n ∈ [1, 4, 8, 13] then some (.invalidConfig "full") else none

def relief : List Move :=
  [.command (.track 3 .null), .command (.track 7 .null), .command .defaultTrack]

/-- Whichever calls to name a track, to ask for its name or to annotate it are refused: what was
remembered stays, the rows of what was remembered say where they belong, and nothing is announced
but by the announcements. A command fails only if a call was refused, at once and with its
reason. -/
theorem failures_are_contained (h : History) (refusal : Nat → Option Fault) (more : List Move)
    (fits : Fits ((h.trial refusal).after more).inner) :
    (h.trial refusal).backend.refusal = refusal ∧
      (h.trial refusal).inner.vocabulary = h.opening.vocabulary ∧
      Unscathed (h.trial refusal).inner ∧
      Accounts (h.trial refusal).inner (h.moves.foldl Reservations.announce .empty) ∧
      (∀ u p, (h.trial refusal).placement? u = some p →
        ((h.trial refusal).after more).placement? u = some p) ∧
      ∀ command rest, more = .command command :: rest →
        Tells (h.trial refusal).backend ((h.trial refusal).perform command).2.backend
            ((h.trial refusal).perform command).1 ∧
          ((∀ n e, refusal n = some e → e.isSerious = false) →
            ∀ e, ((h.trial refusal).perform command).1 = .failed e → e.isSerious = false) := by
  have opened : Session.Robust [] h.opening :=
    (Session.sound_start h.settings h.unwritten).robust h.ofDescriptors_opening
  have blank : Accounts h.opening .empty := by
    rw [opening, Session.start_eq]
    exact fun u => .inl rfl
  have words := h.distinct_opening
  obtain ⟨inner, numbered⟩ := h.trialOpening_eq refusal
  unfold trial at fits ⊢
  generalize h.trialOpening refusal = c at *
  rw [← inner] at opened blank words ⊢
  have roomy : Fits (c.after h.moves).inner := fits.of_grows (Trial.grows_after _ more)
  obtain ⟨robust, upholds, accounts, same⟩ := Trial.after_weathers opened blank h.moves roomy
  have still := (Trial.after_weathers robust accounts more fits).2.1
  refine ⟨same.trans numbered, upholds.vocabulary, robust.unscathed (upholds.vocabulary ▸ words),
    accounts, still.placed, ?_⟩
  rintro command rest rfl
  have tells :=
    (Session.perform_weathers robust command (fits.of_grows (Trial.grows_after _ rest))).2
  refine ⟨tells, fun mild e failed => ?_⟩
  rw [failed] at tells
  obtain ⟨-, n, -, -, refused, -⟩ := tells
  rw [same.trans numbered] at refused
  exact mild n e refused

theorem failures_are_contained_besieged :
    (besieged.trial flaky).backend.refusal = flaky ∧
      (besieged.trial flaky).inner.vocabulary = besieged.opening.vocabulary ∧
      Unscathed (besieged.trial flaky).inner ∧
      Accounts (besieged.trial flaky).inner (besieged.moves.foldl Reservations.announce .empty) ∧
      (∀ u p, (besieged.trial flaky).placement? u = some p →
        ((besieged.trial flaky).after relief).placement? u = some p) ∧
      ∀ command rest, relief = .command command :: rest →
        Tells (besieged.trial flaky).backend ((besieged.trial flaky).perform command).2.backend
            ((besieged.trial flaky).perform command).1 ∧
          ((∀ n e, flaky n = some e → e.isSerious = false) →
            ∀ e, ((besieged.trial flaky).perform command).1 = .failed e → e.isSerious = false) :=
  besieged.failures_are_contained flaky relief
    ⟨by decide +kernel, by decide +kernel, by decide +kernel⟩

end History
end TraceTracks
