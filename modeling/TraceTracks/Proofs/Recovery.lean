import TraceTracks.Proofs.Retry

/-! Looking a track up once more after the look-up broke off: what it replies, and what the tables
say then, beside what they would have said if nothing had been refused. -/
namespace TraceTracks
namespace Session
open Catalog (resolve)

section Again
variable {limit : Nat} {u : Uuid} {e : Fault} {c₁ d : Session}

/-- The session before and after a first attempt, then after a second one, and after an undisturbed
one. -/
structure Mended (scar : Scar) (c c₁ d s : Session) : Prop where
  marks : scar.Marks c c₁
  redone : Redone scar d s
  unscathed : Unscathed d
  kept : ∀ u p, c₁.placement? u = some p → d.placement? u = some p ∧ Kept c₁ d p.track

theorem Robust.kept {o : Option Placement} {p : Placement} {v : Uuid} (robust : Robust [] c₁)
    (upholds : Upholds c₁ d) (found : resolve limit .empty u c₁ = .ok o d)
    (placed : c₁.placement? v = some p) : Kept c₁ d p.track := by
  have tidy : Tidy c₁ (Act.left (resolve limit .empty u c₁)) := tidy_closed.resolve _ _ _ c₁
  rw [found] at tidy
  have args := upholds.args v p placed
  obtain ⟨row, hrow⟩ := Option.isSome_iff_exists.mp (robust.row_of_placed placed)
  exact ⟨(tidy.row p.track row hrow args).trans hrow.symm, args⟩

theorem Robust.after_refused {c c₁ : Trial} (robust : Robust [] c.inner)
    (failed : resolve limit .empty u c = .error e c₁) (fits : Fits c₁.inner) :
    After [] [] c.inner c₁.inner := by
  have withstands := withstands_resolve robust limit u
  rw [failed] at withstands
  exact (withstands fits).of_error.1

theorem Robust.mended {c c₁ : Trial} (robust : Robust [] c.inner)
    (words : c.inner.vocabulary.Distinct) (failed : resolve limit .empty u c = .error e c₁)
    (fits : Fits (left (resolve limit .empty u c₁.inner)))
    (fits' : Fits (left (resolve limit .empty u c.inner))) :
    ∃ p, ∃ d : Session, ∃ q, ∃ s : Session, ∃ scar,
      resolve limit .empty u c₁.inner = .ok (some p) d ∧
        resolve limit .empty u c.inner = .ok (some q) s ∧ d.placement? u = some p ∧
          s.placement? u = some q ∧ Mended scar c.inner c₁.inner d s := by
  have growing : Growing (resolve limit .empty u) :=
    .of_evolves (steps_grows.closed.resolve limit .empty u)
  have roomy : Fits c₁.inner := fits.of_grows (growing c₁.inner)
  have after := robust.after_refused failed roomy
  obtain ⟨scar, marks, mends⟩ :=
    mends_resolution (failed ▸ Catalog.resolution limit .empty Trail.level_empty u c) rfl after
      Trail.level_empty robust List.not_mem_nil (fun mem => by cases mem) roomy
  obtain ⟨p, d, q, s, found, found', redone⟩ :=
    mends [] c₁.inner (.refl _) after.robust fits fits'
  obtain ⟨o, d', same, again, placed⟩ :=
    after.robust.resolves Trail.level_empty List.not_mem_nil (fun mem => by cases mem) fits
  obtain ⟨o', s', same', -, placed'⟩ :=
    robust.resolves Trail.level_empty List.not_mem_nil (fun mem => by cases mem) fits'
  rw [found] at same
  rw [found'] at same'
  cases same
  cases same'
  have words' := (after.upholds.trans again.upholds).vocabulary ▸ words
  exact ⟨p, d, q, s, scar, found, found', placed.symm, placed'.symm, marks, redone,
    again.robust.unscathed words', fun v p placed => ⟨again.upholds.placed v p placed,
      after.robust.kept again.upholds found placed⟩⟩

end Again

section Perform
variable {β : Type} [TrackSink β] [LifetimeSource β] {u : Uuid} {e : Fault}

theorem perform_of_resolve {c c' : Catalog β} {o : Option Placement}
    (found : resolve c.settings.maxAncestors .empty u c = .ok o c') :
    c.perform (.track u .null) = (.track (o.map Placement.track), c') := by
  have named : Catalog.nameAfter u .null o c' = .ok (o.map Placement.track) c' := by
    cases o <;> rfl
  have answer : Catalog.track? u .null c = .ok (o.map Placement.track) c' := by
    rw [Catalog.track?_eq_bind, Act.bind_ok found, named]
  rw [Catalog.perform, answer]

theorem perform_of_failed {c : Catalog β} (failed : (c.perform (.track u .null)).1 = .failed e) :
    resolve c.settings.maxAncestors .empty u c = .error e (c.perform (.track u .null)).2 := by
  cases found : resolve c.settings.maxAncestors .empty u c with
  | ok o c' =>
    rw [perform_of_resolve found] at failed
    cases failed
  | error e' c' =>
    have answer : Catalog.track? u .null c = .error e' c' := by
      rw [Catalog.track?_eq_bind, Act.bind_error found]
    rw [Catalog.perform, answer] at failed ⊢
    cases failed
    rfl

theorem fits_resolve {c : Session} (fits : Fits (c.perform (.track u .null)).2) :
    Fits (left (resolve c.settings.maxAncestors .empty u c)) := by
  rw [perform_track, Catalog.track?_eq_bind] at fits
  exact fits.of_grows (left_bind_grows (growing_nameAfter u .null) c)

theorem Robust.perform_again {c c₁ : Trial} (robust : Robust [] c.inner)
    (words : c.inner.vocabulary.Distinct) (failed : c.perform (.track u .null) = (.failed e, c₁))
    (fits : Fits (c₁.inner.perform (.track u .null)).2)
    (fits' : Fits (c.inner.perform (.track u .null)).2) :
    ∃ p, ∃ d : Session, ∃ q, ∃ s : Session, ∃ scar,
      c₁.inner.perform (.track u .null) = (.track (some p.track), d) ∧
        c.inner.perform (.track u .null) = (.track (some q.track), s) ∧ d.placement? u = some p ∧
          s.placement? u = some q ∧ Mended scar c.inner c₁.inner d s := by
  have broke : resolve c.inner.settings.maxAncestors .empty u c = .error e c₁ := by
    have broke := perform_of_failed (congrArg Prod.fst failed)
    rwa [failed] at broke
  have roomy : Fits c₁.inner := fits.of_grows (grows_move c₁.inner (.command (.track u .null)))
  have settings := (robust.after_refused broke roomy).upholds.settings
  have fits := fits_resolve fits
  rw [settings] at fits
  obtain ⟨p, d, q, s, scar, found, found', mended⟩ :=
    robust.mended words broke fits (fits_resolve fits')
  rw [← settings] at found
  have reply : c₁.inner.perform (.track u .null) = (.track (some p.track), d) :=
    perform_of_resolve found
  have reply' : c.inner.perform (.track u .null) = (.track (some q.track), s) :=
    perform_of_resolve found'
  exact ⟨p, d, q, s, scar, reply, reply', mended⟩

end Perform

def entry? (c : Session) (u : Uuid) : Option (StringId × List Arg) :=
  (c.placement? u).bind fun p => (c.row? p.track).map fun row => (row.name, c.argsOf p.track)

end Session

namespace History
open Session (Fits Mended)

def attempt (h : History) (refusal : Nat → Option Fault) (u : Uuid) : Reply × Trial :=
  (h.trial refusal).perform (.track u .null)

def secondAttempt (h : History) (refusal : Nat → Option Fault) (u : Uuid) : Reply × Session :=
  (h.attempt refusal u).2.inner.perform (.track u .null)

def undisturbed (h : History) (refusal : Nat → Option Fault) (u : Uuid) : Reply × Session :=
  (h.trial refusal).inner.perform (.track u .null)

def interrupted : History where
  settings := .default
  before := [.intern "p"]
  moves := [.command (.announce 1 (.process 5 ⟨1⟩ 1)),
    .command (.announce 2 (.thread 1 5 6 .null 2)), .command (.announce 3 (.child 0 .null))]
  room := by decide +kernel

def refuses (call : Nat) : Nat → Option Fault := fun n =>
  if n = call then some (.invalidConfig "full") else none

theorem robust_trial (h : History) (refusal : Nat → Option Fault)
    (fits : Fits (h.trial refusal).inner) : Session.Robust [] (h.trial refusal).inner ∧
      (h.trial refusal).inner.vocabulary.Distinct := by
  have opened : Session.Robust [] h.opening :=
    (Session.sound_start h.settings h.unwritten).robust h.ofDescriptors_opening
  have blank : Session.Accounts h.opening .empty := by
    rw [opening, Session.start_eq]
    exact fun u => .inl rfl
  have words := h.distinct_opening
  rw [← (h.trialOpening_eq refusal).1] at opened blank words
  unfold trial at fits ⊢
  generalize h.trialOpening refusal = c at *
  obtain ⟨robust, upholds, -⟩ := Trial.after_weathers opened blank h.moves fits
  rw [upholds.vocabulary]
  exact ⟨robust, words⟩

/-- A look-up that broke off succeeds once the storage works again. It comes to remember what an
undisturbed one does, on behalf of the same entities and under the same names, and with the same
arguments below the same parents, but for one uuid. Either its row was that of an entity, and may
have the arguments of both attempts; or it was remembered by the first attempt, and stays without
its name. What was remembered has one row for each uuid, beside rows that were made for nobody. -/
theorem second_attempt_mends (h : History) (refusal : Nat → Option Fault) {u : Uuid} {e : Fault}
    (failed : (h.attempt refusal u).1 = .failed e) (fits : Fits (h.secondAttempt refusal u).2)
    (fits' : Fits (h.undisturbed refusal u).2) : ∃ p q scar,
      (h.secondAttempt refusal u).1 = .track (some p.track) ∧
        (h.undisturbed refusal u).1 = .track (some q.track) ∧
        (h.secondAttempt refusal u).2.placement? u = some p ∧
        (h.undisturbed refusal u).2.placement? u = some q ∧
        Mended scar (h.trial refusal).inner (h.attempt refusal u).2.inner
          (h.secondAttempt refusal u).2 (h.undisturbed refusal u).2 := by
  obtain ⟨robust, words⟩ := h.robust_trial refusal
    (fits'.of_grows (Session.grows_move (h.trial refusal).inner (.command (.track u .null))))
  obtain ⟨p, d, q, s, scar, again, once, mended⟩ :=
    robust.perform_again words (Prod.ext failed rfl) fits fits'
  change h.secondAttempt refusal u = _ at again
  change h.undisturbed refusal u = _ at once
  rw [again, once]
  exact ⟨p, q, scar, rfl, rfl, mended⟩

theorem second_attempt_mends_interrupted :
    (interrupted.attempt (refuses 2) 2).1 = .failed (.invalidConfig "full") ∧ ∃ p q scar,
      (interrupted.secondAttempt (refuses 2) 2).1 = .track (some p.track) ∧
        (interrupted.undisturbed (refuses 2) 2).1 = .track (some q.track) ∧
        (interrupted.secondAttempt (refuses 2) 2).2.placement? 2 = some p ∧
        (interrupted.undisturbed (refuses 2) 2).2.placement? 2 = some q ∧
        Mended scar (interrupted.trial (refuses 2)).inner
          (interrupted.attempt (refuses 2) 2).2.inner (interrupted.secondAttempt (refuses 2) 2).2
          (interrupted.undisturbed (refuses 2) 2).2 :=
  have failed : (interrupted.attempt (refuses 2) 2).1 = .failed (.invalidConfig "full") := by
    decide +kernel
  ⟨failed, interrupted.second_attempt_mends (refuses 2) failed
    ⟨by decide +kernel, by decide +kernel, by decide +kernel⟩
    ⟨by decide +kernel, by decide +kernel, by decide +kernel⟩⟩

/-- A name that was refused is not set again, an argument may be written twice, and rows that were
made for plain tracks are not found again. -/
theorem second_attempt_leaves_scars :
    ((interrupted.attempt (refuses 2) 1).1 = .failed (.invalidConfig "full") ∧
      (Session.entry? (interrupted.secondAttempt (refuses 2) 1).2 1).map Prod.fst = some .null ∧
      (Session.entry? (interrupted.undisturbed (refuses 2) 1).2 1).map Prod.fst = some ⟨1⟩) ∧
    ((interrupted.attempt (refuses 1) 1).1 = .failed (.invalidConfig "full") ∧
      (Session.entry? (interrupted.secondAttempt (refuses 1) 1).2 1).map (·.2.length) = some 3 ∧
      (Session.entry? (interrupted.undisturbed (refuses 1) 1).2 1).map (·.2.length) = some 2) ∧
    (interrupted.attempt (refuses 1) 3).1 = .failed (.invalidConfig "full") ∧
      (Session.rows (interrupted.secondAttempt (refuses 1) 3).2).size = 4 ∧
      (Session.rows (interrupted.undisturbed (refuses 1) 3).2).size = 2 := by
  decide +kernel

end History
end TraceTracks
