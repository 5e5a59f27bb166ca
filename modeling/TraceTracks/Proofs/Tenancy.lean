import TraceTracks.Proofs.Census
import TraceTracks.Proofs.Description

/-! A session whose lifetimes nobody else touches. Its owners and lifetimes are those of an estate
in which the uuids with a track claimed theirs in the order in which the tracks were made. -/
namespace TraceTracks

def Errand.IsIntern : Errand → Bool
  | .intern _ => true
  | _ => false

def Move.SparesLifetimes : Move → Bool
  | .command _ => true
  | .errand e => e.IsIntern

/-- Nobody but the session asks for lifetimes. -/
def History.Alone (h : History) : Prop :=
  h.before.all Errand.IsIntern ∧ h.moves.all Move.SparesLifetimes

instance (h : History) : Decidable h.Alone := inferInstanceAs (Decidable (_ ∧ _))

namespace Session
variable {c c₁ c' : Session} {u : Uuid} {r : Reservation} {p : Placement} {q : Option Placement}

def estate (c : Session) : Estate := (c.owners, c.backend.lifetimes)

def withEstate (c : Session) (e : Estate) : Session :=
  { c with owners := e.1, backend.lifetimes := e.2 }

def tenant? (c : Session) (u : Uuid) : Option Tenant :=
  (c.reservation? u).bind fun r => r.pid.map fun pid => ⟨u, pid, r.tid⟩

def tenants (c : Session) : Tenants := c.placements.keys.filterMap c.tenant?

section Tenants

theorem uuid_of_tenant? {t : Tenant} (h : c.tenant? u = some t) : t.uuid = u := by
  obtain ⟨r, -, hr⟩ := Option.bind_eq_some_iff.mp h
  obtain ⟨pid, -, rfl⟩ := Option.map_eq_some_iff.mp hr
  rfl

theorem tenant?_of_pid {pid : Pid} (reserved : c.reservation? u = some r)
    (hpid : r.pid = some pid) :
    c.tenant? u = some ⟨u, pid, r.tid⟩ := by
  rw [tenant?, reserved, Option.bind_some, hpid]
  rfl

theorem tenant?_of_plain (reserved : c.reservation? u = some r) (hpid : r.pid = none) :
    c.tenant? u = none := by
  rw [tenant?, reserved, Option.bind_some, hpid]
  rfl

theorem uuids_filter_tenants (c : Session) (f : Tenant → Bool) (us : List Uuid) :
    Tenants.uuids ((us.filterMap c.tenant?).filter f) = us.filter fun u => (c.tenant? u).any f := by
  induction us with
  | nil => rfl
  | cons u us ih =>
    cases ht : c.tenant? u with
    | none =>
      rw [List.filterMap_cons_none ht, List.filter_cons_of_neg (by simp [ht])]
      exact ih
    | some t =>
      rw [List.filterMap_cons_some ht]
      cases hf : f t with
      | false =>
        rw [List.filter_cons_of_neg (by simp [hf]), List.filter_cons_of_neg (by simp [ht, hf])]
        exact ih
      | true =>
        rw [List.filter_cons_of_pos hf, List.filter_cons_of_pos (by simp [ht, hf])]
        exact congrArg₂ List.cons (uuid_of_tenant? ht) ih

theorem distinct_tenants (c : Session) : c.tenants.uuids.Nodup := by
  have all := c.uuids_filter_tenants (fun _ => true) c.placements.keys
  rw [List.filter_true] at all
  rw [tenants, all]
  exact c.placements.keys_nodup.filter _

theorem mem_tenants {t : Tenant} (h : t ∈ c.tenants) :
    (c.placement? t.uuid).isSome ∧ c.tenant? t.uuid = some t := by
  obtain ⟨u, hu, ht⟩ := List.mem_filterMap.mp h
  rw [uuid_of_tenant? ht]
  exact ⟨Registry.contains_iff_mem_keys.mpr hu, ht⟩

theorem tenants_insert (placements : c'.placements = c.placements.insert u p)
    (reservations : c'.reservations = c.reservations) (absent : c.placement? u = none) :
    c'.tenants = c.tenants ++ (c.tenant? u).toList := by
  have new : c.placements.contains u = false := by
    rw [Registry.contains, Option.isSome_eq_false_iff, Option.isNone_iff_eq_none]
    exact absent
  have same : c'.tenant? = c.tenant? := by
    funext v
    rw [tenant?, Catalog.reservation?, reservations]
    rfl
  rw [tenants, placements, Registry.keys_insert, new, same, if_neg Bool.false_ne_true,
    List.filterMap_append]
  cases ht : c.tenant? u <;> simp [tenants, ht]

end Tenants

section Aside

structure Aside (c c' : Session) : Prop where
  estate : c'.estate = c.estate
  placements : c'.placements = c.placements
  reservations : c'.reservations = c.reservations
  reuses : c'.countOf .pidReuse = c.countOf .pidReuse

theorem Aside.refl (c : Session) : Aside c c := ⟨rfl, rfl, rfl, rfl⟩

theorem Aside.trans (h : Aside c c₁) (h' : Aside c₁ c') : Aside c c' :=
  ⟨h'.estate.trans h.estate, h'.placements.trans h.placements,
    h'.reservations.trans h.reservations, h'.reuses.trans h.reuses⟩

theorem aside_count {a : Anomaly} (h : a ≠ .pidReuse) (c : Session) : Aside c (c.count a) :=
  ⟨rfl, rfl, rfl, (Tally.get_count _ _ _).trans (if_neg h.symm)⟩

theorem aside_countCuts (cuts : List Cut) (c : Session) : Aside c (c.countCuts cuts) := by
  refine ⟨?_, placements_countCuts cuts c, reservations_countCuts cuts c, ?_⟩
  · rw [countCuts_eq]
    rfl
  · have none : cutCount .pidReuse cuts = 0 :=
      List.countP_eq_zero.mpr fun cut _ => by cases cut <;> simp [Cut.anomaly]
    rw [countOf_countCuts, none, Nat.add_zero]

theorem aside_createTrack {scope : Scope} (made : Catalog.createTrack scope r c = .ok p c') :
    Aside c c' := by
  cases made
  exact ⟨rfl, rfl, rfl, rfl⟩

theorem estate_recorded (c : Session) (u : Uuid) (r : Reservation) (p : Placement)
    (q : Option Placement) : (c.recorded u r p q).estate = c.estate := by
  unfold recorded
  dsimp only
  split <;> rfl

theorem record_cases (recorded : Catalog.record u r p q c = .ok p' c') :
    p' = p ∧ c' = c.recorded u r p q := by
  cases row : c.row? p.track with
  | none =>
    rw [record_error row] at recorded
    cases recorded
  | some _ =>
    rw [record_ok (by simp [row])] at recorded
    cases recorded
    exact ⟨rfl, rfl⟩

end Aside

section Claims

theorem claimThread_eq_estate (u : Uuid) (pid : Pid) (tid : Tid) (c : Session) :
    Act.claim (Owners.claimThread u pid tid) c =
      match Owners.claimThread u pid tid c.estate with
      | .ok claim e => .ok claim (c.withEstate e)
      | .error f e => .error f (c.withEstate e) := by
  rw [claimThread_eq, estate, Owners.claimThread_eq]
  simp only [LifetimeSource.updateThread, LifetimeSource.startThread, owner?]
  generalize c.backend.lifetimes.updateThread tid pid = first
  generalize first.2.startThread none tid = fresh
  generalize fresh.2.updateThread tid pid = again
  cases c.owners.threadOwner? first.1 with
  | none => rfl
  | some owner =>
    dsimp only
    by_cases own : owner = u
    · rw [if_pos own, if_pos own]
      rfl
    · rw [if_neg own, if_neg own]
      cases again.1 == fresh.1 <;> rfl

theorem claimProcess_eq_estate (u : Uuid) (pid : Pid) (c : Session) :
    Act.claim (Owners.claimProcess u pid) c =
      match Owners.claimProcess u pid c.estate with
      | .ok claim e => .ok claim (c.withEstate e)
      | .error f e => .error f (c.withEstate e) := by
  rw [claimProcess_eq, estate, Owners.claimProcess_eq]
  simp only [LifetimeSource.process, LifetimeSource.startProcess, owner?]
  generalize c.backend.lifetimes.process pid = first
  generalize first.2.startProcess none none pid .null = fresh
  cases c.owners.processOwner? first.1 with
  | none => rfl
  | some owner =>
    dsimp only
    by_cases own : owner = u
    · rw [if_pos own, if_pos own]
      rfl
    · rw [if_neg own, if_neg own]
      rfl

theorem aside_threadClaimed {claim : Claim .thread} (made : threadClaimed claim c = .ok p c') :
    Aside c c' := by
  obtain ⟨utid, reused⟩ := claim
  cases reused with
  | false =>
    cases made
    exact ⟨rfl, rfl, rfl, rfl⟩
  | true =>
    cases made
    exact (aside_count (a := .tidReuse) (by decide) c).trans ⟨rfl, rfl, rfl, rfl⟩

theorem processClaimed_cases {claim : Claim .process} (made : processClaimed claim c = .ok p c') :
    Aside (if claim.reused then c.count .pidReuse else c) c' := by
  obtain ⟨upid, reused⟩ := claim
  cases reused <;> cases made <;> exact ⟨rfl, rfl, rfl, rfl⟩

end Claims

section Faithful

/-- The estate is what the tenants made of it, and each process beyond the first of its pid was
counted as a reuse. -/
structure Faithful (c : Session) : Prop where
  estate : c.estate = Estate.start.after (c.tenants.map Tenant.affair)
  reuses : c.countOf .pidReuse = c.tenants.surplus

theorem Faithful.aside (h : Faithful c) (x : Aside c c') : Faithful c' := by
  have same : c'.tenants = c.tenants := by
    have tenant : c'.tenant? = c.tenant? := by
      funext v
      rw [tenant?, Catalog.reservation?, x.reservations]
      rfl
    rw [tenants, x.placements, tenant, tenants]
  exact ⟨by rw [x.estate, same, h.estate], by rw [x.reuses, same, h.reuses]⟩

theorem Fits.estate (fits : c.Fits) : c.estate.2.Fits := ⟨fits.threads, fits.processes⟩

theorem Faithful.census (h : Faithful c) (fits : c.Fits) : Estate.Census c.tenants c.estate := by
  have fits := fits.estate
  rw [h.estate] at fits ⊢
  exact Estate.census c.tenants c.distinct_tenants fits

theorem not_mem_tenants (absent : c.placement? u = none) : u ∉ c.tenants.uuids := by
  intro mem
  obtain ⟨t, ht, rfl⟩ := List.mem_map.mp mem
  have placed := (mem_tenants ht).1
  rw [absent] at placed
  cases placed

structure Admitted (c : Session) (u : Uuid) (c' : Session) : Prop where
  estate : c'.estate = c.estate.after ((c.tenant? u).toList.map Tenant.affair)
  placements : c'.placements = c.placements
  reservations : c'.reservations = c.reservations
  reuses : c'.countOf .pidReuse = Tenants.surplus (c.tenants ++ (c.tenant? u).toList)

theorem Admitted.aside (h : Admitted c u c₁) (x : Aside c₁ c') : Admitted c u c' :=
  ⟨x.estate.trans h.estate, x.placements.trans h.placements,
    x.reservations.trans h.reservations, x.reuses.trans h.reuses⟩

theorem Aside.admitted (x : Aside c c') (h : Faithful c) (plain : c.tenant? u = none) :
    Admitted c u c' := by
  refine ⟨?_, x.placements, x.reservations, ?_⟩
  · rw [plain]
    exact x.estate
  · rw [plain, x.reuses, h.reuses]
    simp

theorem Faithful.claimThreadTrack {pid : Pid} {tid : Tid} (h : Faithful c)
    (tenant : c.tenant? u = some ⟨u, pid, some tid⟩)
    (made : Catalog.claimThreadTrack u pid tid c = .ok p c') : Admitted c u c' := by
  rw [claimThreadTrack_eq_bind] at made
  have claimed := claimThread_eq_estate u pid tid c
  cases granted : Owners.claimThread u pid tid c.estate with
  | error f e =>
    rw [granted] at claimed
    rw [Act.bind_error claimed] at made
    cases made
  | ok claim e =>
    rw [granted] at claimed
    rw [Act.bind_ok claimed] at made
    have first : Admitted c u (c.withEstate e) := by
      refine ⟨?_, rfl, rfl, ?_⟩
      · simp only [tenant, Option.toList_some, List.map_cons, List.map_nil, Estate.after_cons,
          Tenant.affair, Estate.take, granted, Estate.left]
        rfl
      · rw [tenant, Option.toList_some, Tenants.surplus_concat]
        exact h.reuses.trans (by simp)
    exact first.aside (aside_threadClaimed made)

theorem Faithful.claimProcessTrack {pid : Pid} (h : Faithful c) (absent : c.placement? u = none)
    (tenant : c.tenant? u = some ⟨u, pid, none⟩)
    (made : Catalog.claimProcessTrack u pid c = .ok p c') (fits : c'.Fits) : Admitted c u c' := by
  rw [claimProcessTrack_eq_bind] at made
  have grows := ((growing_claimProcess u pid).bind growing_processClaimed).of_ok made
  have census := h.census (fits.of_grows grows)
  have claimed := claimProcess_eq_estate u pid c
  cases granted : Owners.claimProcess u pid c.estate with
  | error f e =>
    rw [granted] at claimed
    rw [Act.bind_error claimed] at made
    cases made
  | ok claim e =>
    rw [granted] at claimed
    rw [Act.bind_ok claimed] at made
    have counted := processClaimed_cases made
    have estate : Session.estate (if claim.reused then Catalog.count .pidReuse (c.withEstate e)
        else c.withEstate e) = e := by split <;> rfl
    have fits₁ : e.2.Fits := estate ▸ counted.estate ▸ fits.estate
    have fits₂ : (Estate.left (Owners.claimProcess u pid c.estate)).2.Fits := by
      rw [granted]
      exact fits₁
    obtain ⟨claim', e', granted', -, -, g⟩ := Estate.claimProcess_granted census.kept fits₂
    rw [granted] at granted'
    cases granted'
    have reused := census.reused_iff g (not_mem_tenants absent) (g.fits fits₁)
    refine Admitted.aside ⟨?_, ?_, ?_, ?_⟩ counted
    · rw [estate]
      simp only [tenant, Option.toList_some, List.map_cons, List.map_nil, Estate.after_cons,
        Tenant.affair, Estate.take, granted, Estate.left]
      rfl
    · split <;> rfl
    · split <;> rfl
    · -- The claim is a reuse just if the tenant is not the first one of the pid.
      rw [tenant, Option.toList_some, Tenants.surplus_concat, ← h.reuses]
      by_cases again : claim.reused = true
      · rw [if_pos again, if_pos ⟨rfl, reused.mp again⟩]
        exact (Tally.get_count _ _ _).trans (if_pos rfl)
      · rw [if_neg again, if_neg fun later => again (reused.mpr later.2)]
        rfl

theorem Faithful.situate (h : Faithful c) (reserved : c.reservation? u = some r)
    (absent : c.placement? u = none) (made : Catalog.situate u r q c = .ok p c') (fits : c'.Fits) :
    Admitted c u c' := by
  unfold Catalog.situate at made
  cases hpid : r.pid with
  | none =>
    rw [hpid] at made
    exact (aside_createTrack made).admitted h (tenant?_of_plain reserved hpid)
  | some pid =>
    have tenant := tenant?_of_pid reserved hpid
    cases htid : r.tid with
    | some tid =>
      rw [hpid, htid] at made
      exact h.claimThreadTrack (htid ▸ tenant) made
    | none =>
      rw [hpid, htid] at made
      exact h.claimProcessTrack absent (htid ▸ tenant) made fits

theorem Faithful.record (h : Faithful c) (x : Admitted c u c₁) (absent : c.placement? u = none) :
    Faithful (c₁.recorded u r p q) := by
  have joined : (c₁.recorded u r p q).tenants = c.tenants ++ (c.tenant? u).toList := by
    apply tenants_insert (p := p) _ _ absent
    · rw [placements_recorded, x.placements]
    · rw [reservations_recorded, x.reservations]
  refine ⟨?_, ?_⟩
  · rw [estate_recorded, joined, List.map_append, Estate.after_append, ← h.estate, x.estate]
  · rw [countOf_recorded, joined, x.reuses]

end Faithful

section Resolution
variable {limit : Nat} {path : List Uuid} {o : Option Placement}

/-- What a part of a resolution did that did not fail. Those that wait for it have no track yet. -/
structure Minds (path : List Uuid) (c c' : Session) : Prop where
  faithful : Faithful c'
  reserved : ∀ v r, c.reservation? v = some r → c'.reservation? v = some r
  waiting : ∀ v ∈ path, c'.placement? v = c.placement? v

theorem Faithful.minds (h : Faithful c) : Minds path c c := ⟨h, fun _ _ => id, fun _ _ => rfl⟩

theorem Faithful.minds_aside (h : Faithful c) (x : Aside c c') : Minds path c c' := by
  refine ⟨h.aside x, fun v r hr => ?_, fun v _ => ?_⟩
  · rwa [Catalog.reservation?, x.reservations]
  · rw [Catalog.placement?, x.placements]
    rfl

theorem Minds.trans (h : Minds path c c₁) (h' : Minds path c₁ c') : Minds path c c' :=
  ⟨h'.faithful, fun v r => h'.reserved v r ∘ h.reserved v r,
    fun v mem => (h'.waiting v mem).trans (h.waiting v mem)⟩

theorem Minds.shorten (h : Minds (u :: path) c c') : Minds path c c' :=
  { h with waiting := fun v mem => h.waiting v (List.mem_cons_of_mem u mem) }

theorem Faithful.minds_record (h : Faithful c) (x : Admitted c u c₁)
    (absent : c.placement? u = none) (free : u ∉ path)
    (recorded : Catalog.record u r p q c₁ = .ok p' c') : Minds path c c' := by
  obtain ⟨-, rfl⟩ := record_cases recorded
  refine ⟨h.record x absent, fun v r hr => ?_, fun v mem => ?_⟩
  · rwa [reservation?_recorded, Catalog.reservation?, x.reservations]
  · have other : v ≠ u := fun same => free (same ▸ mem)
    rw [placement?_recorded, if_neg other, Catalog.placement?, x.placements]
    rfl

theorem Faithful.minds_settle (h : Faithful c) (reserved : c.reservation? u = some r)
    (absent : c.placement? u = none) (free : u ∉ path)
    (settled : Catalog.settle u r q c = .ok p c') (fits : c'.Fits) : Minds path c c' := by
  unfold Catalog.settle at settled
  cases made : Catalog.situate u r q c with
  | error e c₁ =>
    rw [Act.bind_error made] at settled
    cases settled
  | ok p₁ c₁ =>
    rw [Act.bind_ok made] at settled
    have roomy := fits.of_grows ((growing_record u r p₁ q).of_ok settled)
    exact h.minds_record (h.situate reserved absent made roomy) absent free settled

theorem Minds.release (h : Minds (u :: path) c c₁) (reserved : c.reservation? u = some r)
    (absent : c.placement? u = none) (hpid : r.pid = none) (free : u ∉ path)
    (recorded : Catalog.record u r p q c₁ = .ok p' c') : Minds path c c' := by
  have plain := tenant?_of_plain (h.reserved u r reserved) hpid
  have absent₁ := (h.waiting u List.mem_cons_self).trans absent
  exact h.shorten.trans (h.faithful.minds_record ((Aside.refl c₁).admitted h.faithful plain) absent₁
    free recorded)

theorem Faithful.announced (h : Faithful c) (absent : c.placement? 0 = none)
    (unreserved : c.reservation? 0 = none) : Faithful (c.reserve 0 c.defaultReservation) := by
  have announced := reserve_of_unreserved unreserved c.defaultReservation
  have same : tenants (c.reserve 0 c.defaultReservation) = c.tenants := by
    rw [tenants, Catalog.placements_reserve]
    refine List.filterMap_congr fun v mem => ?_
    have nonzero : v ≠ 0 := by
      rintro rfl
      have known := Registry.contains_iff_mem_keys.mpr mem
      rw [Registry.contains, Option.isSome_iff_ne_none] at known
      exact known absent
    rw [tenant?, Catalog.reservation?_reserve_of_unreserved unreserved, if_neg nonzero]
    rfl
  constructor
  · rw [same, ← h.estate, announced]
    rfl
  · rw [same, ← h.reuses, announced]
    rfl

theorem Faithful.minds_makeDefault (h : Faithful c) (absent : c.placement? 0 = none)
    (unreserved : c.reservation? 0 = none) (free : 0 ∉ path)
    (made : Catalog.makeDefault c = .ok p c') (fits : c'.Fits) : Minds path c c' := by
  have reserved := Catalog.reservation?_reserve_of_unreserved unreserved c.defaultReservation
  have placed := congrFun (Catalog.placement?_reserve 0 c.defaultReservation c)
  have faithful := h.announced absent unreserved
  have step : Minds path c (c.reserve 0 c.defaultReservation) := by
    refine ⟨faithful, fun v r hr => ?_, fun v _ => placed v⟩
    rw [reserved, if_neg, hr]
    rintro rfl
    rw [unreserved] at hr
    cases hr
  rw [Catalog.makeDefault_eq] at made
  exact step.trans (faithful.minds_settle ((reserved 0).trans (if_pos rfl))
    ((placed 0).trans absent) free made fits)

theorem Faithful.resolution {path : Trail} {result} (h : Faithful c)
    (x : Catalog.Resolution limit path u c result) (free : u ∉ path.above)
    (ok : result = .ok o c') (fits : c'.Fits) : Minds path.above c c' := by
  -- By induction on the calls. No uuid on the path gets its track meanwhile, and so none of them
  -- becomes a tenant before its own call is back.
  induction x generalizing o c' with
  | known placed =>
    cases ok
    exact h.minds
  | unannounced absent unreserved =>
    cases ok
    exact h.minds
  | joined absent reserved ends above =>
    obtain ⟨p, settled, -⟩ := Act.of_map_ok ok
    exact h.minds_settle reserved absent free settled fits
  | @linked path u c c₁ r q absent reserved opens above ih =>
    obtain ⟨p, settled, -⟩ := Act.of_map_ok ok
    have roomy := fits.of_grows ((growing_settle u r (some q)).of_ok settled)
    have up := ih h (Catalog.declared_notMem_above_enter opens) rfl roomy
    rw [Trail.above_enter] at up
    exact up.shorten.trans (up.faithful.minds_settle (up.reserved u r reserved)
      ((up.waiting u List.mem_cons_self).trans absent) free settled fits)
  | linkFailed => cases ok
  | @housed path u c r ending absent reserved ends apart housed =>
    obtain ⟨p, settled, -⟩ := Act.of_map_ok ok
    have step : Minds path.above c (c.countCuts ending.cuts) := h.minds_aside (aside_countCuts _ _)
    exact step.trans (step.faithful.minds_settle (step.reserved _ _ reserved)
      (by rwa [Catalog.placement?, placements_countCuts]) free settled fits)
  | @barred path u c c₁ r ending p absent reserved ends apart homeless waits made =>
    obtain ⟨p', recorded, -⟩ := Act.of_map_ok ok
    have hpid := ((Catalog.homeless_iff reserved).mp homeless).1
    have step : Minds (u :: path.above) c (c₁.count .loop) :=
      h.minds_aside ((aside_countCuts _ _).trans
        ((aside_createTrack made).trans (aside_count (a := .loop) (by decide) _)))
    exact step.release reserved absent hpid free recorded
  | @sheltered path u c c₁ c₂ r ending p q absent reserved ends apart homeless zero
      made default ih =>
    obtain ⟨p', recorded, -⟩ := Act.of_map_ok ok
    obtain ⟨hpid, nonzero⟩ := (Catalog.homeless_iff reserved).mp homeless
    have roomy := fits.of_grows ((growing_record u r p (some q)).of_ok recorded)
    have step : Minds (u :: path.above) c c₁ :=
      h.minds_aside ((aside_countCuts _ _).trans (aside_createTrack made))
    have found := ih step.faithful (Trail.zero_notMem_above_enterRoot zero nonzero) rfl roomy
    rw [Trail.above_enterRoot] at found
    exact (step.trans found).release reserved absent hpid free recorded
  | @shelterMade path u c c₁ r ending p absent reserved ends apart homeless zero made absent₀
      unreserved₀ =>
    obtain ⟨p', rest, -⟩ := Act.of_map_ok ok
    obtain ⟨hpid, nonzero⟩ := (Catalog.homeless_iff reserved).mp homeless
    have step : Minds (u :: path.above) c c₁ :=
      h.minds_aside ((aside_countCuts _ _).trans (aside_createTrack made))
    cases default : Catalog.makeDefault c₁ with
    | error e c₂ =>
      rw [Act.bind_error default] at rest
      cases rest
    | ok q c₂ =>
      rw [Act.bind_ok default] at rest
      have roomy := fits.of_grows ((growing_record u r p (some q)).of_ok rest)
      have found : Minds (u :: path.above) c₁ c₂ := step.faithful.minds_makeDefault absent₀
        unreserved₀ (List.not_mem_cons_of_ne_of_not_mem nonzero.symm zero) default roomy
      exact (step.trans found).release reserved absent hpid free rest
  | shelterFailed => cases ok

end Resolution

section Moves
variable {log : List Entry}

theorem Faithful.quiet (h : Faithful c) (s : Sound log [] c) (x : Quiet c c')
    (estate : c'.estate = c.estate) (reuses : c'.countOf .pidReuse = c.countOf .pidReuse) :
    Faithful c' := by
  have same : c'.tenants = c.tenants := by
    rw [tenants, x.placements]
    refine List.filterMap_congr fun u mem => ?_
    obtain ⟨p, placed⟩ := Option.isSome_iff_exists.mp (Registry.contains_iff_mem_keys.mpr mem)
    obtain ⟨e, -, rfl, r, q, stands⟩ := s.stands_of_placement? placed
    obtain ⟨r', reserved, still⟩ := x.reserved _ r stands.reserved
    have shape := Reservation.toShape_of_still still
    have hpid : r'.pid = r.pid := congrArg Shape.pid shape
    have htid : r'.tid = r.tid := congrArg Shape.tid shape
    rw [tenant?, tenant?, reserved, stands.reserved, Option.bind_some, Option.bind_some, hpid, htid]
  exact ⟨by rw [estate, same, h.estate], by rw [reuses, same, h.reuses]⟩

theorem estate_reserve (u : Uuid) (r : Reservation) (c : Session) :
    estate (c.reserve u r) = c.estate := by
  unfold Catalog.reserve
  dsimp only
  split <;> rfl

theorem Faithful.move (h : Faithful c) (s : Sound log [] c) {m : Move}
    (spares : m.SparesLifetimes) (fits : (c.move m).Fits) : Faithful (c.move m) := by
  cases m with
  | errand e =>
    cases e with
    | intern text => exact h.quiet s (quiet_errand (.intern text) c) rfl rfl
    | _ => cases spares
  | command command =>
    cases command with
    | announce u d =>
      exact h.quiet s (quiet_reserve u d.reservation c) (estate_reserve u _ c)
        (countOf_reserve_of_ne (by decide) u _ c)
    | sample u sequence value => exact h.quiet s (quiet_sample u sequence value c) rfl rfl
    | clear sequence => exact h.quiet s (quiet_clear sequence c) rfl rfl
    | track u event =>
      rw [Session.move, perform_track, Catalog.track?_eq_bind] at fits ⊢
      have roomy := fits.of_grows (left_bind_grows (growing_nameAfter u event) c)
      obtain ⟨c₁, resolved, sound, -⟩ := resolve_ok s c.settings.maxAncestors u roomy
      rw [resolved] at roomy
      have resolution := Catalog.resolution c.settings.maxAncestors .empty Trail.level_empty u c
      have faithful := (h.resolution resolution List.not_mem_nil resolved roomy).faithful
      obtain ⟨c', named, same⟩ := nameAfter_ok u event (sound.row_of_placement? u)
      rw [Act.bind_ok resolved, named]
      rcases same with rfl | ⟨-, track, rfl⟩
      · exact faithful
      · exact faithful.aside ⟨rfl, rfl, rfl, rfl⟩
    | defaultTrack =>
      rw [Session.move, perform_defaultTrack, Catalog.defaultTrackId_eq_map, left_map] at fits ⊢
      have roomy := fits.of_grows (left_bind_grows growing_elseMakeDefault c)
      obtain ⟨c₁, resolved, sound, -⟩ := resolve_ok s c.settings.maxAncestors 0 roomy
      rw [resolved] at roomy
      have resolution := Catalog.resolution c.settings.maxAncestors .empty Trail.level_empty 0 c
      have minds := h.resolution resolution List.not_mem_nil resolved roomy
      cases placed : c₁.placement? 0 with
      | some p =>
        rw [placed] at resolved
        rw [Catalog.defaultTrack_of_found resolved]
        exact minds.faithful
      | none =>
        rw [placed] at resolved
        rw [resolved] at resolution
        have unreserved := resolution.of_none
        rw [Catalog.defaultTrack_of_none resolved] at fits ⊢
        obtain ⟨p, c', made, -⟩ := makeDefault_ok sound placed
          (unreserved.2.2 ▸ unreserved.2.1) (by simp) fits
        rw [made] at fits ⊢
        exact (minds.faithful.minds_makeDefault placed (unreserved.2.2 ▸ unreserved.2.1)
          List.not_mem_nil made fits).faithful

theorem Faithful.after (h : Faithful c) (s : Sound log [] c) {moves : List Move}
    (spares : moves.all Move.SparesLifetimes) (fits : (c.after moves).Fits) :
    Faithful (c.after moves) := by
  induction moves generalizing log c with
  | nil => exact h
  | cons m moves ih =>
    rw [List.all_cons, Bool.and_eq_true] at spares
    have roomy : (c.move m).Fits := fits.of_grows (grows_after (c.move m) moves)
    exact ih (h.move s spares.1 roomy) (move_ok s m roomy).sound spares.2 fits

end Moves
end Session

namespace History
variable {h : History}

theorem Alone.lifetimes_tables (alone : h.Alone) : h.tables.lifetimes = .empty := by
  have kept (errands : List Errand) (b : Trace) (interns : errands.all Errand.IsIntern) :
      (errands.foldl Errand.perform b).lifetimes = b.lifetimes := by
    induction errands generalizing b with
    | nil => rfl
    | cons e errands ih =>
      rw [List.all_cons, Bool.and_eq_true] at interns
      cases e with
      | intern text => exact ih _ interns.2
      | _ => cases interns.1
  exact kept h.before Trace.empty alone.1

/-- A session that has its lifetimes to itself keeps its books. -/
theorem Alone.faithful (alone : h.Alone) (fits : h.state.Fits) : Session.Faithful h.state := by
  have opening : Session.Faithful h.opening := by
    rw [History.opening, Session.start_eq]
    refine ⟨?_, ?_⟩
    · rw [Session.estate, alone.lifetimes_tables]
      rfl
    · rw [Session.countOf, h.unwritten.tally, Tally.get_zero]
      rfl
  exact opening.after (Session.sound_start h.settings h.unwritten) alone.2 fits

end History
end TraceTracks
