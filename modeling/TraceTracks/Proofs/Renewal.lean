import TraceTracks.Proofs.Outages
import TraceTracks.Proofs.Tenancy

/-! Attempts that are made again. A claim that is made twice in a row comes to the same entity and
changes nothing more; a row is found or made as the estate and the parent say. A look-up whose calls
may be refused follows the one that is never refused, so that one on a storage that works succeeds,
whatever was left behind. -/
namespace TraceTracks

namespace Estate
variable {uuid : Uuid} {pid : Pid} {tid : Tid} {e e' : Estate}

theorem claimThread_own {o : Owners} {l : Lifetimes} {utid : Utid}
    (proposed : l.updateThread tid pid = (utid, l)) (owner : o.threadOwner? utid = some uuid) :
    Owners.claimThread uuid pid tid (o, l) = .ok ⟨utid, false⟩ (o, l) := by
  have equation := Owners.claimThread_eq uuid pid tid o l
  simp only [LifetimeSource.updateThread, proposed, owner, if_true] at equation
  exact equation

theorem claimProcess_own {o : Owners} {l : Lifetimes} {upid : Upid}
    (proposed : l.process pid = (upid, l)) (owner : o.processOwner? upid = some uuid) :
    Owners.claimProcess uuid pid (o, l) = .ok ⟨upid, false⟩ (o, l) := by
  have equation := Owners.claimProcess_eq uuid pid o l
  simp only [LifetimeSource.process, proposed, owner, if_true] at equation
  exact equation

/-- Who claims a thread again gets the same one, and nothing else happens. -/
theorem claimThread_again {claim : Claim .thread}
    (granted : Owners.claimThread uuid pid tid e = .ok claim e') (fits : e'.2.Fits) :
    Owners.claimThread uuid pid tid e' = .ok ⟨claim.entity, false⟩ e' := by
  obtain ⟨o, l⟩ := e
  have same {l : Lifetimes} (fits : (l.updateThread tid pid).2.Fits) :
      (l.updateThread tid pid).2.updateThread tid pid =
        ((l.updateThread tid pid).1, (l.updateThread tid pid).2) :=
    Lifetimes.updateThread_again tid pid l fits
  rw [Owners.claimThread_eq] at granted
  simp only [LifetimeSource.updateThread, LifetimeSource.startThread] at granted
  generalize first : l.updateThread tid pid = proposed at granted
  cases owner : o.threadOwner? proposed.1 with
  | none =>
    simp only [owner] at granted
    cases granted
    subst first
    exact claimThread_own (same fits) (by rw [threadOwner?_ownThread, if_pos rfl])
  | some v =>
    simp only [owner] at granted
    by_cases own : v = uuid
    · rw [if_pos own] at granted
      cases granted
      subst first own
      exact claimThread_own (same fits) owner
    · rw [if_neg own] at granted
      cases fresh : ((proposed.2.startThread none tid).2.updateThread tid pid).1 ==
          (proposed.2.startThread none tid).1 with
      | false =>
        rw [fresh] at granted
        cases granted
      | true =>
        rw [fresh] at granted
        cases granted
        have again := same fits
        rw [beq_iff_eq.mp fresh] at again
        exact claimThread_own again (by rw [threadOwner?_ownThread, if_pos rfl])

theorem claimProcess_again {claim : Claim .process}
    (granted : Owners.claimProcess uuid pid e = .ok claim e') :
    Owners.claimProcess uuid pid e' = .ok ⟨claim.entity, false⟩ e' := by
  obtain ⟨o, l⟩ := e
  rw [Owners.claimProcess_eq] at granted
  simp only [LifetimeSource.process, LifetimeSource.startProcess] at granted
  have same := Lifetimes.process_again pid l
  generalize l.process pid = proposed at *
  cases owner : o.processOwner? proposed.1 with
  | none =>
    simp only [owner] at granted
    cases granted
    exact claimProcess_own same (by rw [processOwner?_ownProcess, if_pos rfl])
  | some v =>
    simp only [owner] at granted
    by_cases own : v = uuid
    · rw [if_pos own] at granted
      cases granted
      subst own
      exact claimProcess_own same owner
    · rw [if_neg own] at granted
      cases granted
      have current := Lifetimes.currentProcess?_startProcess none none pid .null proposed.2 pid
      rw [if_pos rfl] at current
      exact claimProcess_own (Lifetimes.process_of_current current)
        (by rw [processOwner?_ownProcess, if_pos rfl])

/-- Where the row of a uuid comes to lie below a parent, given what it claims. -/
def lodging (uuid : Uuid) (r : Reservation) (parent : Option Placement) :
    EStateM Fault Estate (Scope × Flavor) :=
  match r.pid, r.tid with
  | some pid, some tid =>
    (fun claim => (.thread claim.entity, .slice)) <$> Owners.claimThread uuid pid tid
  | some pid, none =>
    (fun claim => (.process claim.entity, .slice)) <$> Owners.claimProcess uuid pid
  | none, _ => pure ((parent.bind Placement.childScope).getD .global, .ofIsCounter r.isCounter)

theorem lodging_again {r : Reservation} {parent : Option Placement} {place : Scope × Flavor}
    (lodged : lodging uuid r parent e = .ok place e') (fits : e'.2.Fits) :
    lodging uuid r parent e' = .ok place e' := by
  unfold lodging at *
  cases hpid : r.pid with
  | none =>
    simp only [hpid] at *
    cases lodged
    rfl
  | some pid =>
    cases htid : r.tid with
    | none =>
      simp only [hpid, htid] at *
      obtain ⟨claim, granted, rfl⟩ := Act.of_map_ok lodged
      exact Act.map_ok (claimProcess_again granted) _
    | some tid =>
      simp only [hpid, htid] at *
      obtain ⟨claim, granted, rfl⟩ := Act.of_map_ok lodged
      exact Act.map_ok (claimThread_again granted fits) _

end Estate

namespace Session
variable {c c' : Session} {u : Uuid} {r : Reservation} {p : Placement} {q : Option Placement}

inductive Housed (c : Session) (p : Placement) (c' : Session) : Prop
  | found (primary : c.primary? p.scope = some p.track) (rows : c'.rows = c.rows)
  | made (track : p.track = Handle.ofIndex c.rows.size)
      (rows : c'.rows = c.rows.push ⟨p.track, .null, p.scope, p.flavor⟩)

theorem housed_threadTrack {utid : Utid} {id : TrackId}
    (row : (Act.onBackend (TrackSink.threadTrack utid) : Act Trace TrackId) c = .ok id c') :
    Housed c ⟨id, .thread utid, .slice⟩ c' ∧ c'.estate = c.estate := by
  cases primary : c.primary? (.thread utid) with
  | some track =>
    rw [threadTrack_again primary] at row
    cases row
    exact ⟨.found primary rfl, rfl⟩
  | none =>
    rw [threadTrack_ok primary] at row
    cases row
    exact ⟨.made rfl rfl, rfl⟩

theorem housed_processTrack {upid : Upid} {id : TrackId}
    (row : (Act.onBackend (TrackSink.processTrack upid) : Act Trace TrackId) c = .ok id c') :
    Housed c ⟨id, .process upid, .slice⟩ c' ∧ c'.estate = c.estate := by
  cases primary : c.primary? (.process upid) with
  | some track =>
    rw [processTrack_again primary] at row
    cases row
    exact ⟨.found primary rfl, rfl⟩
  | none =>
    rw [processTrack_ok primary] at row
    cases row
    exact ⟨.made rfl rfl, rfl⟩

theorem Housed.of_same {c₀ : Session} (h : Housed c₀ p c')
    (tracks : c₀.backend.store.tracks = c.backend.store.tracks) : Housed c p c' := by
  have rows : c₀.rows = c.rows := congrArg Tracks.rows tracks
  cases h with
  | found primary same =>
    refine .found ?_ (same.trans rows)
    rw [← primary]
    cases p.scope <;> simp only [primary?, tracks]
  | made track same => exact .made (rows ▸ track) (rows ▸ same)

theorem housed_claimed {reused : Bool} {a : Anomaly} {row : Act Trace TrackId} {s : Scope}
    (hr : ∀ {c₀ : Session} {id}, row c₀ = .ok id c' →
      Housed c₀ ⟨id, s, .slice⟩ c' ∧ c'.estate = c₀.estate)
    (made : (do
      if reused then
        modify (Catalog.count a)
      let track ← row
      return ⟨track, s, .slice⟩ : Act Trace Placement) c = .ok p c') :
    Housed c p c' ∧ c'.estate = c.estate ∧ (s, .slice) = (p.scope, p.flavor) := by
  have placed {b : Session} (made : (do
      let track ← row
      return ⟨track, s, .slice⟩ : Act Trace Placement) b = .ok p c') :
      Housed b p c' ∧ c'.estate = b.estate ∧ (s, .slice) = (p.scope, p.flavor) := by
    rw [← map_eq_pure_bind] at made
    obtain ⟨track, found, rfl⟩ := Act.of_map_ok made
    exact ⟨(hr found).1, (hr found).2, rfl⟩
  cases reused with
  | false => exact placed made
  | true =>
    obtain ⟨housed, rest⟩ := placed (b := c.count a) made
    exact ⟨housed.of_same rfl, rest⟩

theorem bind_claim_cases {α γ : Type} {x : Act Trace α} {g : EStateM Fault Estate α}
    {f : α → Act Trace γ} {b : γ}
    (ok : ∀ a e, g c.estate = .ok a e → x c = .ok a (c.withEstate e))
    (error : ∀ f e, g c.estate = .error f e → x c = .error f (c.withEstate e))
    (made : (x >>= f) c = .ok b c') :
    ∃ a e, g c.estate = .ok a e ∧ f a (c.withEstate e) = .ok b c' := by
  cases granted : g c.estate with
  | error f e =>
    rw [Act.bind_error (error f e granted)] at made
    cases made
  | ok a e =>
    rw [Act.bind_ok (ok a e granted)] at made
    exact ⟨a, e, rfl, made⟩

theorem situate_lodges (made : Catalog.situate u r q c = .ok p c') :
    Housed c p c' ∧ Estate.lodging u r q c.estate = .ok (p.scope, p.flavor) c'.estate := by
  unfold Catalog.situate at made
  unfold Estate.lodging
  cases hpid : r.pid with
  | none =>
    simp only [hpid] at *
    cases made
    exact ⟨.made rfl rfl, rfl⟩
  | some pid =>
    cases htid : r.tid with
    | none =>
      simp only [hpid, htid] at *
      rw [claimProcessTrack_eq_bind] at made
      obtain ⟨claim, e, granted, made⟩ := bind_claim_cases (g := Owners.claimProcess u pid)
        (fun _ _ granted => by rw [claimProcess_eq_estate, granted])
        (fun _ _ granted => by rw [claimProcess_eq_estate, granted]) made
      obtain ⟨housed, estate, place⟩ := housed_claimed housed_processTrack made
      rw [Act.map_ok granted, place, estate]
      exact ⟨housed.of_same rfl, rfl⟩
    | some tid =>
      simp only [hpid, htid] at *
      rw [claimThreadTrack_eq_bind] at made
      obtain ⟨claim, e, granted, made⟩ := bind_claim_cases (g := Owners.claimThread u pid tid)
        (fun _ _ granted => by rw [claimThread_eq_estate, granted])
        (fun _ _ granted => by rw [claimThread_eq_estate, granted]) made
      obtain ⟨housed, estate, place⟩ := housed_claimed housed_threadTrack made
      rw [Act.map_ok granted, place, estate]
      exact ⟨housed.of_same rfl, rfl⟩

end Session

namespace Catalog

/-- How an act ends on a backend that may break down, given how it ends on the backend underneath:
in the same way, unless a call was refused. -/
inductive Follows {β α : Type} (b : Faulty β) : EStateM.Result Fault (Catalog (Faulty β)) α →
    EStateM.Result Fault (Catalog β) α → Prop
  | ok {a c} (refusal : c.backend.refusal = b.refusal) : Follows b (.ok a c) (.ok a c.inner)
  | error {e c} (refusal : c.backend.refusal = b.refusal) :
      Follows b (.error e c) (.error e c.inner)
  | refused {e c result} (n : Nat) (refused : b.refusal n = some e) : Follows b (.error e c) result

section Follows
variable {β α γ : Type} {b b' : Faulty β} {c : Catalog (Faulty β)}
  {result : EStateM.Result Fault (Catalog (Faulty β)) α}
  {under : EStateM.Result Fault (Catalog β) α}

theorem Follows.of_ok {a : α} (h : Follows b (.ok a c) under) :
    under = .ok a c.inner ∧ c.backend.refusal = b.refusal := by
  cases h with
  | ok refusal => exact ⟨rfl, refusal⟩

theorem Follows.of_error {e : Fault} (h : Follows b (.error e c) under) :
    (under = .error e c.inner ∧ c.backend.refusal = b.refusal) ∨ ∃ n, b.refusal n = some e := by
  cases h with
  | error refusal => exact .inl ⟨rfl, refusal⟩
  | refused n refused => exact .inr ⟨n, refused⟩

theorem Follows.after (h : Follows b' result under) (refusal : b'.refusal = b.refusal) :
    Follows b result under := by
  cases h with
  | ok same => exact .ok (same.trans refusal)
  | error same => exact .error (same.trans refusal)
  | refused n refused => exact .refused n (refusal ▸ refused)

variable {x : Act (Faulty β) α} {y : Act β α}

theorem Follows.bind {f : α → Act (Faulty β) γ} {g : α → Act β γ}
    (h : Follows c.backend (x c) (y c.inner))
    (hf : ∀ a c₁, Follows c₁.backend (f a c₁) (g a c₁.inner)) :
    Follows c.backend ((x >>= f) c) ((y >>= g) c.inner) := by
  generalize hx : x c = result at h
  generalize hy : y c.inner = under at h
  cases h with
  | ok refusal =>
    rw [Act.bind_ok hx, Act.bind_ok hy]
    exact (hf _ _).after refusal
  | error refusal =>
    rw [Act.bind_error hx, Act.bind_error hy]
    exact .error refusal
  | refused n refused =>
    rw [Act.bind_error hx]
    exact .refused n refused

theorem Follows.map (h : Follows c.backend (x c) (y c.inner)) (f : α → γ) :
    Follows c.backend ((f <$> x) c) ((f <$> y) c.inner) := by
  rw [map_eq_pure_bind, map_eq_pure_bind]
  exact h.bind fun a c₁ => .ok rfl

theorem Mirrors.follows (h : Mirrors x y) (c : Catalog (Faulty β)) :
    Follows c.backend (x c) (y c.inner) := by
  rw [h c]
  cases y c.inner with
  | ok a s => exact .ok (c := c.around s) rfl
  | error e s => exact .error (c := c.around s) rfl

theorem follows_tryBackend (f : EStateM Fault β α) (c : Catalog (Faulty β)) :
    Follows c.backend (Act.tryBackend (Faulty.attempt f) c) (Act.tryBackend f c.inner) := by
  cases refused : c.backend.refusal c.backend.calls with
  | some e =>
    rw [tryBackend_refused refused]
    exact .refused _ refused
  | none =>
    rw [tryBackend_granted refused]
    cases Act.tryBackend f c.inner with
    | ok a s => exact .ok (c := c.called.around s) rfl
    | error e s => exact .error (c := c.called.around s) rfl

variable [TrackSink β]

theorem follows_addArgs (track : TrackId) (args : List Arg) (c : Catalog (Faulty β)) :
    Follows c.backend (addArgs track args c) (addArgs track args c.inner) := by
  induction args generalizing c with
  | nil => exact .ok rfl
  | cons arg args ih => exact (follows_tryBackend _ c).bind fun _ c₁ => ih c₁

theorem follows_record (uuid : Uuid) (r : Reservation) (p : Placement) (parent : Option Placement)
    (c : Catalog (Faulty β)) :
    Follows c.backend (record uuid r p parent c) (record uuid r p parent c.inner) := by
  unfold record
  rw [annotate_eq, annotate_eq]
  refine Follows.bind (follows_addArgs p.track _ c) fun _ c₁ => ?_
  refine Follows.bind (c := c₁) (.ok rfl) fun _ c₂ => ?_
  split
  · exact (follows_tryBackend _ c₂).bind fun _ c₃ => .ok rfl
  · exact .ok rfl

theorem follows_makeDefault (c : Catalog (Faulty β)) :
    Follows c.backend (makeDefault c) (makeDefault c.inner) := by
  unfold makeDefault
  rw [Act.get_bind, Act.get_bind]
  refine Follows.bind ((mirrors_reserve 0 _).follows c) fun _ c₁ => ?_
  exact ((mirrors_createTrack _ _).follows c₁).bind fun p c₂ => follows_record _ _ p none c₂

theorem follows_settle [LifetimeSource β] (uuid : Uuid) (r : Reservation)
    (parent : Option Placement) (c : Catalog (Faulty β)) :
    Follows c.backend (settle uuid r parent c) (settle uuid r parent c.inner) :=
  ((mirrors_situate uuid r parent).follows c).bind fun p c₁ => follows_record uuid r p parent c₁

end Follows

section Resolve
variable {limit : Nat} {path : Trail} {uuid : Uuid}

theorem createTrack_under {r : Reservation} {p : Placement} {cuts : List Cut} {c c₁ : Trial}
    (made : createTrack .global r (c.countCuts cuts) = .ok p c₁) :
    createTrack .global r (c.inner.countCuts cuts) = .ok p c₁.inner ∧
      c₁.backend.refusal = c.backend.refusal := by
  obtain ⟨same, granted⟩ := Session.inner_countCuts cuts c
  have follows := (mirrors_createTrack (β := Trace) .global r).follows (c.countCuts cuts)
  rw [made, same] at follows
  generalize createTrack .global r (c.inner.countCuts cuts) = under at follows
  cases follows with
  | ok refusal => exact ⟨rfl, refusal.trans granted.refusal⟩

/-- A resolution on a storage that may fail goes as it does on the storage underneath, up to the
first call that is refused. -/
theorem Resolution.follows {c : Trial} {result} (h : Resolution limit path uuid c result)
    (level : path.Level) : Follows c.backend result (resolve limit path uuid c.inner) := by
  -- By induction on the calls: the same call of the other resolution is put together from what the
  -- induction says of the ones below, and is the only way in which that resolution goes.
  induction h with
  | @known path uuid c p placed =>
    have placed : c.inner.placement? uuid = some p := placed
    rw [resolve_of_placement? placed]
    exact .ok rfl
  | @unannounced path uuid c absent unreserved =>
    have absent : c.inner.placement? uuid = none := absent
    rw [resolve_of_unannounced absent unreserved]
    exact .ok rfl
  | @joined path uuid c r parent q absent reserved ends above =>
    have calls : Resolution limit path uuid c.inner _ := .joined absent reserved ends above
    rw [calls.eq_resolve level]
    exact (follows_settle uuid r (some q) c).map some
  | @linked path uuid c c₁ r q absent reserved opens above ih =>
    have up := ih (level.enter uuid)
    have found := resolution limit (path.enter uuid) (level.enter uuid) (c.declared uuid) c.inner
    rw [up.of_ok.1] at found
    have calls : Resolution limit path uuid c.inner _ := .linked absent reserved opens found
    rw [calls.eq_resolve level]
    exact ((follows_settle uuid r (some q) c₁).map some).after up.of_ok.2
  | @linkFailed path uuid c c₁ r e absent reserved opens above ih =>
    have found := resolution limit (path.enter uuid) (level.enter uuid) (c.declared uuid) c.inner
    obtain ⟨same, refusal⟩ | ⟨n, refused⟩ := (ih (level.enter uuid)).of_error
    · rw [same] at found
      have calls : Resolution limit path uuid c.inner _ := .linkFailed absent reserved opens found
      rw [calls.eq_resolve level]
      exact .error refusal
    · exact .refused n refused
  | @housed path uuid c r ending absent reserved ends apart housed =>
    obtain ⟨same, granted⟩ := Session.inner_countCuts ending.cuts c
    have calls : Resolution limit path uuid c.inner _ := .housed absent reserved ends apart housed
    rw [calls.eq_resolve level, ← same]
    exact ((follows_settle uuid r none _).map some).after granted.refusal
  | @barred path uuid c c₁ r ending p absent reserved ends apart homeless waits made =>
    obtain ⟨made', refusal⟩ := createTrack_under made
    have calls : Resolution limit path uuid c.inner _ :=
      .barred absent reserved ends apart homeless waits made'
    rw [calls.eq_resolve level]
    exact ((follows_record uuid r p none (c₁.count .loop)).map some).after refusal
  | @sheltered path uuid c c₁ c₂ r ending p q absent reserved ends apart homeless free made default
      ih =>
    obtain ⟨made', refusal⟩ := createTrack_under made
    have down := ih (Trail.level_enterRoot path uuid)
    have found := resolution limit _ (Trail.level_enterRoot path uuid) 0 c₁.inner
    rw [down.of_ok.1] at found
    have calls : Resolution limit path uuid c.inner _ :=
      .sheltered absent reserved ends apart homeless free made' found
    rw [calls.eq_resolve level]
    exact ((follows_record uuid r p (some q) c₂).map some).after (down.of_ok.2.trans refusal)
  | @shelterMade path uuid c c₁ r ending p absent reserved ends apart homeless free made absent₀
      unreserved₀ =>
    obtain ⟨made', refusal⟩ := createTrack_under made
    have calls : Resolution limit path uuid c.inner _ :=
      .shelterMade absent reserved ends apart homeless free made' absent₀ unreserved₀
    rw [calls.eq_resolve level]
    have default := (follows_makeDefault c₁).bind fun q c₂ => follows_record uuid r p (some q) c₂
    exact (default.map some).after refusal
  | @shelterFailed path uuid c c₁ c₂ r ending p e absent reserved ends apart homeless free made
      default ih =>
    obtain ⟨made', same'⟩ := createTrack_under made
    have found := resolution limit _ (Trail.level_enterRoot path uuid) 0 c₁.inner
    obtain ⟨same, refusal⟩ | ⟨n, refused⟩ := (ih (Trail.level_enterRoot path uuid)).of_error
    · rw [same] at found
      have calls : Resolution limit path uuid c.inner _ :=
        .shelterFailed absent reserved ends apart homeless free made' found
      rw [calls.eq_resolve level]
      exact .error (refusal.trans same')
    · exact .refused n (same' ▸ refused)

end Resolve
end Catalog

namespace Session
variable {held : List TrackId} {limit : Nat} {path : Trail} {u : Uuid} {c : Session}

def reliably (c : Session) : Trial := { c with backend := Faulty.start c.backend fun _ => none }

/-- A look-up on a storage that works succeeds, whatever was left behind by earlier attempts. -/
theorem Robust.resolves (robust : Robust held c) (level : path.Level) (free : u ∉ path.above)
    (rooted : 0 ∈ path.above → u = 0 ∨ c.Ancestor u 0)
    (fits : Fits (left (Catalog.resolve limit path u c))) :
    ∃ o, ∃ c' : Session, Catalog.resolve limit path u c = .ok o c' ∧ After held path.above c c' ∧
      o = c'.placement? u := by
  have calls := Catalog.resolution limit path level u c.reliably
  have follows : Catalog.Follows _ _ (Catalog.resolve limit path u c) := calls.follows level
  have withstands (fits : Fits _) : Withstands held path.above u c.reliably _ :=
    Resolution.withstands calls robust free rooted fits
  generalize Catalog.resolve limit path u c.reliably = result at *
  generalize Catalog.resolve limit path u c = under at *
  cases follows with
  | @ok o c₁ refusal =>
    obtain ⟨⟨after, found⟩, -⟩ := (withstands fits).of_ok
    exact ⟨_, _, rfl, after, found⟩
  | @error e c₁ refusal =>
    obtain ⟨-, -, n, -, -, refused, -⟩ := (withstands fits).of_error
    cases refused
  | refused n refused => cases refused

structure Tidy (c c' : Session) : Prop where
  args : ∀ id, c.argsOf id <+: c'.argsOf id
  row : ∀ id row, c.row? id = some row → c'.argsOf id = c.argsOf id → c'.row? id = some row

section Tidy
variable {a b c c' : Session}

theorem Tidy.of_kept (args : c'.argsOf = c.argsOf)
    (row : ∀ id row, c.row? id = some row → c'.row? id = some row) : Tidy c c' :=
  ⟨fun _ => args ▸ List.prefix_refl _, fun id r h _ => row id r h⟩

theorem Tidy.refl (c : Session) : Tidy c c := .of_kept rfl fun _ _ h => h

theorem Tidy.trans (h : Tidy a b) (h' : Tidy b c) : Tidy a c where
  args id := (h.args id).trans (h'.args id)
  row id r hr same := by
    have upper := h'.args id
    rw [same] at upper
    have here : b.argsOf id = a.argsOf id :=
      upper.eq_of_length_le (h.args id).length_le
    exact h'.row id r (h.row id r hr here) (same.trans here.symm)

theorem row?_of_push {track : Track} (rows : c'.rows = c.rows.push track) {id : TrackId}
    {row : Track}
    (h : c.row? id = some row) : c'.row? id = some row := by
  rw [row?_eq] at h ⊢
  rw [rows, Array.getElem?_push, if_neg, h]
  obtain ⟨lt, -⟩ := Array.getElem?_eq_some_iff.mp h
  exact Nat.ne_of_lt lt

theorem tidy_record (u : Uuid) (r : Reservation) (p : Placement) (q : Option Placement) :
    Catalog.Evolves Tidy (Catalog.record u r p q : Act Trace Placement) := by
  intro (c : Session)
  cases present : c.row? p.track with
  | none =>
    rw [record_error present]
    exact .refl c
  | some row =>
  rw [record_ok (by simp [present])]
  refine ⟨fun id => ?_, fun id row hrow same => ?_⟩
  · show c.argsOf id <+: (c.recorded u r p q).argsOf id
    rw [argsOf_recorded]
    split
    next here => exact here ▸ List.prefix_append _ _
    next => exact List.prefix_refl _
  · change (c.recorded u r p q).argsOf id = c.argsOf id at same
    by_cases here : id = p.track
    · subst here
      rw [argsOf_recorded, if_pos rfl] at same
      simp [argsFor] at same
    · exact (row?_recorded_of_ne c u r p q here).trans hrow

theorem row?_reserve (u : Uuid) (r : Reservation) (c : Session) (id : TrackId) :
    row? (c.reserve u r) id = c.row? id := by
  unfold Catalog.reserve
  dsimp only
  split <;> rfl

theorem tidy_ground : Catalog.Ground fun {α} (x : Act Trace α) => Catalog.Evolves Tidy x where
  pure _ c := .refl c
  bind hx hf c := (hx c).trans (Catalog.Evolves.left_bind .refl _ hf c)
  count _ c := .of_kept rfl fun _ _ h => h
  createRow scope flavor c := .of_kept rfl fun _ _ => row?_of_push rfl
  threadRow utid := by
    intro (c : Session)
    cases primary : c.primary? (.thread utid) with
    | some id =>
      rw [threadTrack_again primary]
      exact .refl c
    | none =>
      rw [threadTrack_ok primary]
      exact .of_kept rfl fun _ _ => row?_of_push rfl
  processRow upid := by
    intro (c : Session)
    cases primary : c.primary? (.process upid) with
    | some id =>
      rw [processTrack_again primary]
      exact .refl c
    | none =>
      rw [processTrack_ok primary]
      exact .of_kept rfl fun _ _ => row?_of_push rfl
  claimThread u pid tid := by
    intro (c : Session)
    rw [claimThread_eq_estate]
    cases Owners.claimThread u pid tid c.estate <;> exact .of_kept rfl fun _ _ h => h
  claimProcess u pid := by
    intro (c : Session)
    rw [claimProcess_eq_estate]
    cases Owners.claimProcess u pid c.estate <;> exact .of_kept rfl fun _ _ h => h

theorem tidy_closed : Catalog.Closed fun {α} (x : Act Trace α) => Catalog.Evolves Tidy x where
  toGround := tidy_ground
  record := tidy_record
  makeDefault := .get fun _ => tidy_ground.bind (fun c => .of_kept
    (quiet_reserve 0 _ c).args fun id _ row => (row?_reserve 0 _ c id).trans row) fun _ =>
      tidy_ground.bind (tidy_ground.createTrack _ _) fun p => tidy_record 0 _ p none
  findOrMake uuid _ _ hm := Catalog.Evolves.findOrMake .refl uuid hm

end Tidy
end Session
end TraceTracks
