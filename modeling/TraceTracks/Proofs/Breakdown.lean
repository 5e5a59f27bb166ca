import TraceTracks.Backend.Faulty
import TraceTracks.Proofs.History

/-! Acts over a backend that breaks down, seen from the backend underneath. An act that makes no
call that may be refused does there what it always does; one that makes such calls does it up to the
first one that is refused. -/
namespace TraceTracks

namespace Faulty
variable {β : Type} {a b c : Faulty β}

/-- Every call from one state to a later one was let through. -/
structure Granted (b c : Faulty β) : Prop where
  refusal : c.refusal = b.refusal
  calls : b.calls ≤ c.calls
  granted : ∀ n, b.calls ≤ n → n < c.calls → b.refusal n = none

/-- The last call from one state to a later one was refused, and no other. -/
structure Broken (b c : Faulty β) (e : Fault) : Prop where
  refusal : c.refusal = b.refusal
  last : ∃ n, b.calls ≤ n ∧ c.calls = n + 1 ∧ b.refusal n = some e ∧
    ∀ m, b.calls ≤ m → m < n → b.refusal m = none

theorem Granted.of_same (refusal : c.refusal = b.refusal) (calls : c.calls = b.calls) :
    Granted b c :=
  ⟨refusal, Nat.le_of_eq calls.symm, fun n _ _ => by omega⟩

theorem Granted.trans (h : Granted a b) (h' : Granted b c) : Granted a c where
  refusal := h'.refusal.trans h.refusal
  calls := Nat.le_trans h.calls h'.calls
  granted n first last := by
    by_cases before : n < b.calls
    · exact h.granted n first before
    · rw [← h.refusal]
      exact h'.granted n (by omega) last

theorem Granted.broken {e : Fault} (h : Granted a b) (h' : Broken b c e) : Broken a c e := by
  obtain ⟨refusal, n, first, calls, refused, granted⟩ := h'
  refine ⟨refusal.trans h.refusal, n, Nat.le_trans h.calls first, calls, h.refusal ▸ refused, ?_⟩
  intro m low high
  by_cases before : m < b.calls
  · exact h.granted m low before
  · rw [← h.refusal]
    exact granted m (by omega) high

theorem granted_next (h : b.refusal b.calls = none) (inner : β) :
    Granted b { b with inner := inner, calls := b.calls + 1 } := by
  refine ⟨rfl, Nat.le_succ _, fun n first last => ?_⟩
  dsimp only at last
  obtain rfl : n = b.calls := by omega
  exact h

theorem broken_next {e : Fault} (h : b.refusal b.calls = some e) :
    Broken b { b with calls := b.calls + 1 } e :=
  ⟨rfl, b.calls, Nat.le_refl _, rfl, h, fun m low high => by omega⟩

end Faulty

namespace Catalog
variable {β α γ : Type}

def inner (c : Catalog (Faulty β)) : Catalog β := { c with backend := c.backend.inner }

def around (c : Catalog (Faulty β)) (s : Catalog β) : Catalog (Faulty β) :=
  { s with backend := { c.backend with inner := s.backend } }

def wrap (c : Catalog (Faulty β)) :
    EStateM.Result Fault (Catalog β) α → EStateM.Result Fault (Catalog (Faulty β)) α
  | .ok a s => .ok a (c.around s)
  | .error e s => .error e (c.around s)

/-- An act does what another one does on the backend underneath. -/
def Mirrors (x : Act (Faulty β) α) (y : Act β α) : Prop := ∀ c, x c = c.wrap (y c.inner)

theorem start_faulty [TrackSink β] (settings : Settings) (b : β) (refusal : Nat → Option Fault) :
    start settings (Faulty.start b refusal) =
      { start settings b with backend := ⟨(start settings b).backend, refusal, 0⟩ } := by
  have passed (text : String) (f : Faulty β) : TrackSink.intern text f =
      ((TrackSink.intern text f.inner).1,
        { f with inner := (TrackSink.intern text f.inner).2 }) := rfl
  simp only [start, vocabularyOf, passed, Faulty.start]

section Mirrors
variable {x : Act (Faulty β) α} {y : Act β α}

theorem mirrors_pure (a : α) : Mirrors (pure a : Act (Faulty β) α) (pure a) := fun _ => rfl

theorem Mirrors.bind {f : α → Act (Faulty β) γ} {g : α → Act β γ} (h : Mirrors x y)
    (hf : ∀ a, Mirrors (f a) (g a)) : Mirrors (x >>= f) (y >>= g) := by
  intro c
  have hc := h c
  cases hy : y c.inner with
  | ok a s =>
    rw [hy] at hc
    rw [Act.bind_ok hc, Act.bind_ok hy]
    exact hf a (c.around s)
  | error e s =>
    rw [hy] at hc
    rw [Act.bind_error hc, Act.bind_error hy]
    rfl

theorem Mirrors.inner_left (h : Mirrors x y) (c : Catalog (Faulty β)) :
    (Act.left (x c)).inner = Act.left (y c.inner) := by
  rw [h c]
  cases y c.inner <;> rfl

theorem mirrors_onBackend (f : β → α × β) :
    Mirrors (Act.onBackend (Faulty.pass f)) (Act.onBackend f) := fun _ => rfl

section Claim
variable [LifetimeSource β]

theorem mirrors_claimThread (uuid : Uuid) (pid : Pid) (tid : Tid) :
    Mirrors (Act.claim (Owners.claimThread uuid pid tid) : Act (Faulty β) (Claim .thread))
      (Act.claim (Owners.claimThread uuid pid tid)) := by
  intro c
  unfold Act.claim
  rw [Owners.claimThread_eq, Owners.claimThread_eq]
  simp only [LifetimeSource.updateThread, LifetimeSource.startThread, Faulty.pass, inner]
  generalize LifetimeSource.updateThread tid pid c.backend.inner = first
  generalize LifetimeSource.startThread none tid first.2 = fresh
  generalize LifetimeSource.updateThread tid pid fresh.2 = again
  cases c.owners.threadOwner? first.1 with
  | none => rfl
  | some owner =>
    by_cases own : owner = uuid
    · simp only [if_pos own]
      rfl
    simp only [if_neg own]
    cases again.1 == fresh.1 <;> rfl

theorem mirrors_claimProcess (uuid : Uuid) (pid : Pid) :
    Mirrors (Act.claim (Owners.claimProcess uuid pid) : Act (Faulty β) (Claim .process))
      (Act.claim (Owners.claimProcess uuid pid)) := by
  intro c
  unfold Act.claim
  rw [Owners.claimProcess_eq, Owners.claimProcess_eq]
  simp only [LifetimeSource.process, LifetimeSource.startProcess, Faulty.pass, inner]
  cases c.owners.processOwner? _ with
  | none => rfl
  | some owner =>
    by_cases own : owner = uuid
    · simp only [if_pos own]
      rfl
    · simp only [if_neg own]
      rfl

end Claim

variable [TrackSink β]

theorem mirrors_count (a : Anomaly) :
    Mirrors (modify (count a) : Act (Faulty β) PUnit) (modify (count a)) := fun _ => rfl

theorem reserve_eq_around (uuid : Uuid) (r : Reservation) (c : Catalog (Faulty β)) :
    c.reserve uuid r = c.around (c.inner.reserve uuid r) := by
  unfold reserve inner
  dsimp only
  generalize c.reservations.reserve uuid r = reserved
  obtain ⟨outcome, rs⟩ := reserved
  cases outcome <;> rfl

theorem inner_reserve (uuid : Uuid) (r : Reservation) (c : Catalog (Faulty β)) :
    (c.reserve uuid r).inner = c.inner.reserve uuid r := by
  rw [reserve_eq_around]
  rfl

theorem mirrors_reserve (uuid : Uuid) (r : Reservation) :
    Mirrors (modify (reserve uuid r) : Act (Faulty β) PUnit) (modify (reserve uuid r)) :=
  fun c => congrArg (EStateM.Result.ok PUnit.unit) (reserve_eq_around uuid r c)

theorem mirrors_createTrack (scope : Scope) (r : Reservation) :
    Mirrors (createTrack scope r : Act (Faulty β) Placement) (createTrack scope r) :=
  (mirrors_onBackend _).bind fun _ => mirrors_pure _

variable [LifetimeSource β]

theorem mirrors_situate (uuid : Uuid) (r : Reservation) (parent : Option Placement) :
    Mirrors (situate uuid r parent : Act (Faulty β) Placement) (situate uuid r parent) := by
  have claimed (reused : Bool) (a : Anomaly) {row : Act (Faulty β) TrackId} {row' : Act β TrackId}
      (h : Mirrors row row') (place : TrackId → Placement) : Mirrors (do
        if reused then
          modify (count a)
        let track ← row
        return place track) (do
        if reused then
          modify (count a)
        let track ← row'
        return place track) := by
    have placed := h.bind fun track => mirrors_pure (place track)
    cases reused with
    | false => exact placed
    | true => exact (mirrors_count a).bind fun _ => placed
  unfold situate
  split
  · exact (mirrors_claimThread _ _ _).bind fun claim => claimed claim.reused .tidReuse
      (mirrors_onBackend _) fun track => ⟨track, .thread claim.entity, .slice⟩
  · exact (mirrors_claimProcess _ _).bind fun claim => claimed claim.reused .pidReuse
      (mirrors_onBackend _) fun track => ⟨track, .process claim.entity, .slice⟩
  · exact mirrors_createTrack _ _

end Mirrors

/-- How an act ends on a backend that breaks down. It gives an answer, every call let through, or it
fails with the reason for which its last call was refused. -/
inductive Ends (b : Faulty β) (Q : α → Catalog β → Prop) (E : Catalog β → Prop) :
    EStateM.Result Fault (Catalog (Faulty β)) α → Prop
  | ok {a c} (holds : Q a c.inner) (granted : Faulty.Granted b c.backend) : Ends b Q E (.ok a c)
  | error {e c} (holds : E c.inner) (broken : Faulty.Broken b c.backend e) :
      Ends b Q E (.error e c)

section Ends
variable {b b' : Faulty β} {Q Q' : α → Catalog β → Prop} {E E' : Catalog β → Prop}
  {result : EStateM.Result Fault (Catalog (Faulty β)) α} {x : Act (Faulty β) α} {y : Act β α}
  {c : Catalog (Faulty β)}

theorem Ends.mono (h : Ends b Q E result) (hQ : ∀ a s, Q a s → Q' a s) (hE : ∀ s, E s → E' s) :
    Ends b Q' E' result := by
  cases h with
  | ok holds granted => exact .ok (hQ _ _ holds) granted
  | error holds broken => exact .error (hE _ holds) broken

theorem Ends.after (h : Ends b Q E result) (granted : Faulty.Granted b' b) :
    Ends b' Q E result := by
  cases h with
  | ok holds rest => exact .ok holds (granted.trans rest)
  | error holds broken => exact .error holds (granted.broken broken)

theorem Ends.bind {Q' : γ → Catalog β → Prop} {f : α → Act (Faulty β) γ} (h : Ends b Q E (x c))
    (hf : ∀ a c₁, Q a c₁.inner → Ends c₁.backend Q' E (f a c₁)) :
    Ends b Q' E ((x >>= f) c) := by
  generalize hx : x c = result at h
  cases h with
  | ok holds granted =>
    rw [Act.bind_ok hx]
    exact (hf _ _ holds).after granted
  | error holds broken =>
    rw [Act.bind_error hx]
    exact .error holds broken

theorem Ends.map {Q' : γ → Catalog β → Prop} {f : α → γ} (h : Ends b Q E (x c))
    (hf : ∀ a s, Q a s → Q' (f a) s) : Ends b Q' E ((f <$> x) c) := by
  rw [map_eq_pure_bind]
  exact h.bind fun a c₁ holds => .ok (hf a _ holds) (.of_same rfl rfl)

theorem Ends.of_ok {a : α} (h : Ends b Q E (.ok a c)) :
    Q a c.inner ∧ Faulty.Granted b c.backend := by
  cases h with
  | ok holds granted => exact ⟨holds, granted⟩

theorem Ends.of_error {e : Fault} (h : Ends b Q E (.error e c)) :
    E c.inner ∧ Faulty.Broken b c.backend e := by
  cases h with
  | error holds broken => exact ⟨holds, broken⟩

theorem Mirrors.ends {a : α} {s : Catalog β} (h : Mirrors x y) (hy : y c.inner = .ok a s)
    (holds : Q a s) : Ends c.backend Q E (x c) := by
  rw [h c, hy]
  exact .ok holds (.of_same rfl rfl)

end Ends

section Calls
variable {f : EStateM Fault β α} {c : Catalog (Faulty β)}

def called (c : Catalog (Faulty β)) : Catalog (Faulty β) :=
  { c with backend := { c.backend with calls := c.backend.calls + 1 } }

theorem tryBackend_refused {e : Fault} (h : c.backend.refusal c.backend.calls = some e) :
    Act.tryBackend (Faulty.attempt f) c = .error e c.called := by
  simp only [Act.tryBackend, Faulty.attempt, h]
  rfl

theorem tryBackend_granted (h : c.backend.refusal c.backend.calls = none) :
    Act.tryBackend (Faulty.attempt f) c = c.called.wrap (Act.tryBackend f c.inner) := by
  simp only [Act.tryBackend, Faulty.attempt, h, inner]
  cases f c.backend.inner <;> rfl

/-- A call that cannot fail underneath has its effect or, if it is refused, none. -/
theorem ends_tryBackend {a : α} {s : Catalog β} (h : Act.tryBackend f c.inner = .ok a s) :
    Ends c.backend (fun a' s' => a' = a ∧ s' = s) (· = c.inner)
      (Act.tryBackend (Faulty.attempt f) c) := by
  cases refused : c.backend.refusal c.backend.calls with
  | some e =>
    rw [tryBackend_refused refused]
    exact .error rfl (Faulty.broken_next refused)
  | none =>
    rw [tryBackend_granted refused, h]
    exact .ok ⟨rfl, rfl⟩ (Faulty.granted_next refused _)

end Calls

section Steps
variable [TrackSink β] [LifetimeSource β] {R : Catalog β → Catalog β → Prop}

/-- What look-ups respect on a backend they also respect when it breaks down. -/
theorem Steps.faulty (h : Steps R) : Steps fun c c' : Catalog (Faulty β) => R c.inner c'.inner := by
  have mirrored {α : Type} {x : Act (Faulty β) α} {y : Act β α} (same : Mirrors x y)
      (hy : Evolves R y) : Evolves (fun c c' => R c.inner c'.inner) x := by
    intro c
    rw [same.inner_left]
    exact hy c.inner
  have attempted {α : Type} {f : EStateM Fault β α} (hf : Evolves R (Act.tryBackend f)) :
      Evolves (fun c c' => R c.inner c'.inner) (Act.tryBackend (Faulty.attempt f)) := by
    intro c
    have done := hf c.inner
    cases refused : c.backend.refusal c.backend.calls with
    | some e =>
      rw [tryBackend_refused refused]
      exact h.refl _
    | none =>
      rw [tryBackend_granted refused]
      cases hc : Act.tryBackend f c.inner <;> rw [hc] at done <;> exact done
  constructor
  case refl => exact fun _ => h.refl _
  case trans => exact fun first second => h.trans first second
  case count => exact fun a => mirrored (mirrors_count a) (h.count a)
  case createRow =>
    exact fun scope flavor => mirrored (mirrors_onBackend _) (h.createRow scope flavor)
  case threadRow => exact fun utid => mirrored (mirrors_onBackend _) (h.threadRow utid)
  case processRow => exact fun upid => mirrored (mirrors_onBackend _) (h.processRow upid)
  case claimThread =>
    exact fun uuid pid tid =>
      mirrored (mirrors_claimThread uuid pid tid) (h.claimThread uuid pid tid)
  case claimProcess =>
    exact fun uuid pid => mirrored (mirrors_claimProcess uuid pid) (h.claimProcess uuid pid)
  case addArg => exact fun track key value => attempted (h.addArg track key value)
  case setName => exact fun track name => attempted (h.setName track name)
  case name => exact fun track => attempted (h.name track)
  case remember => exact fun uuid p => mirrored (fun _ => rfl) (h.remember uuid p)
  case announceDefault => exact fun name => mirrored (mirrors_reserve 0 _) (h.announceDefault name)

end Steps

section Annotate

def addArgs [TrackSink β] (track : TrackId) : List Arg → Act β Unit
  | [] => pure ()
  | arg :: args => do
    Act.tryBackend (TrackSink.addArg track arg.key arg.value)
    addArgs track args

theorem annotate_eq [TrackSink β] (track : TrackId) (uuid : Uuid) (parent : Option TrackId)
    (category : StringId) : (annotate track uuid parent category : Act β Unit) =
      get >>= fun c => addArgs track (argsFor c.vocabulary uuid parent category) := by
  unfold annotate argsFor
  congr 1
  funext c
  cases parent <;> cases StringId.isNull category <;> simp [addArgs]

end Annotate
end Catalog

namespace Session
open Catalog (Ends)
variable {c : Catalog (Faulty Trace)} {track : TrackId}

theorem ends_addArg (present : (row? c.inner track).isSome) (key : StringId) (value : ArgValue) :
    Ends c.backend (fun _ s => s = withArgs c.inner track [⟨key, value⟩]) (· = c.inner)
      (Act.tryBackend (TrackSink.addArg track key value) c) :=
  (Catalog.ends_tryBackend (addArg_ok present [] key value)).mono (fun _ _ h => h.2) fun _ => id

theorem ends_addArgs (present : (row? c.inner track).isSome) (args : List Arg) :
    Ends c.backend (fun _ s => s = withArgs c.inner track args)
      (fun s => ∃ done rest, rest ≠ [] ∧ args = done ++ rest ∧ s = withArgs c.inner track done)
      (Catalog.addArgs track args c) := by
  induction args generalizing c with
  | nil => exact .ok rfl (.of_same rfl rfl)
  | cons arg args ih =>
    have first := (ends_addArg present arg.key arg.value).mono (fun _ _ => id)
      fun s (same : s = c.inner) => (⟨[], arg :: args, nofun, rfl, same⟩ :
        ∃ done rest, rest ≠ [] ∧ arg :: args = done ++ rest ∧ s = withArgs c.inner track done)
    refine first.bind fun _ c₁ added => ?_
    have present₁ : (row? c₁.inner track).isSome := added ▸ present
    refine (ih present₁).mono (fun _ s h => ?_) fun s ⟨done, rest, nonempty, split, h⟩ => ?_
    · rw [h, added]
      rfl
    · refine ⟨arg :: done, rest, nonempty, congrArg (arg :: ·) split, ?_⟩
      rw [h, added]
      rfl

theorem ends_annotate (present : (row? c.inner track).isSome) (uuid : Uuid)
    (parent : Option TrackId) (category : StringId) :
    Ends c.backend
      (fun _ s => s = withArgs c.inner track (argsFor c.vocabulary uuid parent category))
      (fun s => ∃ done rest, rest ≠ [] ∧ argsFor c.vocabulary uuid parent category = done ++ rest ∧
        s = withArgs c.inner track done)
      (Catalog.annotate track uuid parent category c) := by
  rw [Catalog.annotate_eq, Act.get_bind]
  exact ends_addArgs present _

theorem ends_setName (present : (row? c.inner track).isSome) (name : StringId) :
    Ends c.backend (fun _ s => s = withName c.inner track name) (· = c.inner)
      (Act.tryBackend (TrackSink.setName track name) c) :=
  (Catalog.ends_tryBackend (setName_ok present name)).mono (fun _ _ h => h.2) fun _ => id

theorem ends_name {row : Track} (h : row? c.inner track = some row) :
    Ends c.backend (fun name s => name = row.name ∧ s = c.inner) (· = c.inner)
      (Act.tryBackend (TrackSink.name track) c) :=
  Catalog.ends_tryBackend (name_ok h)

theorem ends_record {p : Placement} (present : (row? c.inner p.track).isSome) (uuid : Uuid)
    (r : Reservation) (parent : Option Placement) :
    Ends c.backend (fun p' s => p' = p ∧ s = recorded c.inner uuid r p parent)
      (fun s => (∃ done rest, rest ≠ [] ∧
          argsFor c.vocabulary uuid (parent.map Placement.track) r.category = done ++ rest ∧
          s = withArgs c.inner p.track done) ∨
        s = recorded c.inner uuid { r with name := .null } p parent)
      (Catalog.record uuid r p parent c) := by
  unfold Catalog.record
  refine ((ends_annotate present uuid _ r.category).mono (fun _ _ => id) fun _ => .inl).bind
    fun _ c₁ annotated => ?_
  rw [Act.bind_ok (Act.modify_ok _ _)]
  have unnamed : recorded c.inner uuid { r with name := .null } p parent =
      { c₁.inner with placements := c₁.inner.placements.insert uuid p } := by
    rw [annotated]
    rfl
  cases hn : StringId.isNull r.name with
  | true =>
    have same : r = { r with name := .null } := by rw [← StringId.isNull_iff.mp hn]
    rw [same]
    exact .ok ⟨rfl, unnamed.symm⟩ (.of_same rfl rfl)
  | false =>
    simp only [Bool.not_false, if_true]
    have named := ends_setName
      (c := { c₁ with placements := c₁.placements.insert uuid p })
      (show (row? c₁.inner p.track).isSome from annotated ▸ present) r.name
    refine (named.mono (fun _ _ => id) fun s same => .inr (same.trans unnamed.symm)).bind
      fun _ c₂ renamed => .ok ⟨rfl, ?_⟩ (.of_same rfl rfl)
    rw [renamed, recorded, hn]
    exact congrArg (fun c => withName c p.track r.name) unnamed.symm

end Session
end TraceTracks
