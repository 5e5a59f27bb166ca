import TraceTracks.Backend.Audited
import TraceTracks.Backend.Scripted
import TraceTracks.Proofs.Custody

/-! Claims against any source of lifetimes, also one that contradicts itself. What a claim does to
the owners follows from the first answer alone, unless another uuid owns that; and nothing passes to
another owner unless the source starts it while somebody owns it. -/
namespace TraceTracks.Owners
variable {β : Type} [LifetimeSource β] {uuid : Uuid} {pid : Pid} {tid : Tid} {o : Owners} {b : β}

abbrev proposedThread (tid : Tid) (pid : Pid) (b : β) : Utid × β :=
  LifetimeSource.updateThread tid pid b

/-- The thread that is started if the proposed one belongs to another uuid. -/
abbrev freshThread (tid : Tid) (pid : Pid) (b : β) : Utid × β :=
  LifetimeSource.startThread none tid (proposedThread tid pid b).2

abbrev secondThread (tid : Tid) (pid : Pid) (b : β) : Utid × β :=
  LifetimeSource.updateThread tid pid (freshThread tid pid b).2

abbrev proposedProcess (pid : Pid) (b : β) : Upid × β := LifetimeSource.process pid b

abbrev freshProcess (pid : Pid) (b : β) : Upid × β :=
  LifetimeSource.startProcess none none pid .null (proposedProcess pid b).2

def Taken (uuid : Uuid) (owner : Option Uuid) : Prop := ∃ other, owner = some other ∧ other ≠ uuid

section Taken
variable {owner : Option Uuid}

theorem not_taken_of_none (unowned : owner = none) : ¬Taken uuid owner := by
  rintro ⟨other, owned, -⟩
  rw [unowned] at owned
  cases owned

theorem not_taken_of_own (owned : owner = some uuid) : ¬Taken uuid owner := by
  rintro ⟨other, owned', ne⟩
  rw [owned] at owned'
  exact ne (Option.some.inj owned').symm

instance (uuid : Uuid) : (owner : Option Uuid) → Decidable (Taken uuid owner)
  | none => .isFalse (not_taken_of_none rfl)
  | some other =>
    if same : other = uuid then .isFalse (not_taken_of_own (congrArg some same))
    else .isTrue ⟨other, rfl, same⟩

end Taken

section Answers

inductive ThreadAnswer (uuid : Uuid) (pid : Pid) (tid : Tid) (o : Owners) (b : β) :
    EStateM.Result Fault (Owners × β) (Claim .thread) → Prop
  | free (unowned : o.threadOwner? (proposedThread tid pid b).1 = none) :
      ThreadAnswer uuid pid tid o b (.ok ⟨(proposedThread tid pid b).1, false⟩
        (o.ownThread (proposedThread tid pid b).1 uuid, (proposedThread tid pid b).2))
  | own (owned : o.threadOwner? (proposedThread tid pid b).1 = some uuid) :
      ThreadAnswer uuid pid tid o b
        (.ok ⟨(proposedThread tid pid b).1, false⟩ (o, (proposedThread tid pid b).2))
  | restarted (taken : Taken uuid (o.threadOwner? (proposedThread tid pid b).1))
      (same : (secondThread tid pid b).1 = (freshThread tid pid b).1) :
      ThreadAnswer uuid pid tid o b (.ok ⟨(freshThread tid pid b).1, true⟩
        (o.ownThread (freshThread tid pid b).1 uuid, (secondThread tid pid b).2))
  | mismatched (taken : Taken uuid (o.threadOwner? (proposedThread tid pid b).1))
      (differ : (secondThread tid pid b).1 ≠ (freshThread tid pid b).1) :
      ThreadAnswer uuid pid tid o b
        (.error (mismatch (secondThread tid pid b).1 (freshThread tid pid b).1 tid)
          (o, (secondThread tid pid b).2))

theorem claimThread_answers (uuid : Uuid) (pid : Pid) (tid : Tid) (o : Owners) (b : β) :
    ThreadAnswer uuid pid tid o b (claimThread uuid pid tid (o, b)) := by
  rw [claimThread_eq]
  dsimp only
  cases owner : o.threadOwner? (LifetimeSource.updateThread tid pid b).1 with
  | none => exact .free owner
  | some other =>
    dsimp only
    by_cases own : other = uuid
    · rw [if_pos own]
      exact .own (own ▸ owner)
    · rw [if_neg own]
      have taken : Taken uuid (o.threadOwner? (proposedThread tid pid b).1) := ⟨other, owner, own⟩
      cases same : (secondThread tid pid b).1 == (freshThread tid pid b).1 with
      | true => exact .restarted taken (beq_iff_eq.mp same)
      | false => exact .mismatched taken (beq_eq_false_iff_ne.mp same)

inductive ProcessAnswer (uuid : Uuid) (pid : Pid) (o : Owners) (b : β) :
    EStateM.Result Fault (Owners × β) (Claim .process) → Prop
  | free (unowned : o.processOwner? (proposedProcess pid b).1 = none) :
      ProcessAnswer uuid pid o b (.ok ⟨(proposedProcess pid b).1, false⟩
        (o.ownProcess (proposedProcess pid b).1 uuid, (proposedProcess pid b).2))
  | own (owned : o.processOwner? (proposedProcess pid b).1 = some uuid) :
      ProcessAnswer uuid pid o b
        (.ok ⟨(proposedProcess pid b).1, false⟩ (o, (proposedProcess pid b).2))
  | restarted (taken : Taken uuid (o.processOwner? (proposedProcess pid b).1)) :
      ProcessAnswer uuid pid o b (.ok ⟨(freshProcess pid b).1, true⟩
        (o.ownProcess (freshProcess pid b).1 uuid, (freshProcess pid b).2))

theorem claimProcess_answers (uuid : Uuid) (pid : Pid) (o : Owners) (b : β) :
    ProcessAnswer uuid pid o b (claimProcess uuid pid (o, b)) := by
  rw [claimProcess_eq]
  dsimp only
  cases owner : o.processOwner? (LifetimeSource.process pid b).1 with
  | none => exact .free owner
  | some other =>
    dsimp only
    by_cases own : other = uuid
    · rw [if_pos own]
      exact .own (own ▸ owner)
    · rw [if_neg own]
      exact .restarted ⟨other, owner, own⟩

end Answers

section Outcomes

/-- What a claim of a thread promises, whatever the source answers. -/
structure ThreadSettled (uuid : Uuid) (pid : Pid) (tid : Tid) (o : Owners) (b : β)
    (result : EStateM.Result Fault (Owners × β) (Claim .thread)) : Prop where
  granted : ∀ claim o' b', result = .ok claim (o', b') →
    (∀ utid, o'.threadOwner? utid =
      if utid = claim.entity then some uuid else o.threadOwner? utid) ∧
    o'.processes = o.processes ∧
    (claim.reused = true ↔ Taken uuid (o.threadOwner? (proposedThread tid pid b).1)) ∧
    claim.entity = if claim.reused then (freshThread tid pid b).1 else (proposedThread tid pid b).1
  refused : (∃ fault e, result = .error fault e) ↔
    Taken uuid (o.threadOwner? (proposedThread tid pid b).1) ∧
    (secondThread tid pid b).1 ≠ (freshThread tid pid b).1
  unchanged : ∀ fault o' b', result = .error fault (o', b') → o' = o ∧
    fault = mismatch (secondThread tid pid b).1 (freshThread tid pid b).1 tid

structure ProcessSettled (uuid : Uuid) (pid : Pid) (o : Owners) (b : β) (claim : Claim .process)
    (o' : Owners) : Prop where
  owner : ∀ upid, o'.processOwner? upid =
    if upid = claim.entity then some uuid else o.processOwner? upid
  threads : o'.threads = o.threads
  reused : claim.reused = true ↔ Taken uuid (o.processOwner? (proposedProcess pid b).1)
  entity : claim.entity =
    if claim.reused then (freshProcess pid b).1 else (proposedProcess pid b).1

variable {result : EStateM.Result Fault (Owners × β) (Claim .thread)}

theorem eq_entered_of_own {κ : Type} [DecidableEq κ] {owner? : κ → Option Uuid} {key : κ}
    (owned : owner? key = some uuid) (other : κ) :
    owner? other = if other = key then some uuid else owner? other := by
  split
  next same => rw [same, owned]
  next => rfl

theorem ThreadAnswer.settled (h : ThreadAnswer uuid pid tid o b result) :
    ThreadSettled uuid pid tid o b result := by
  cases h with
  | free unowned =>
    have spare : ¬Taken uuid (o.threadOwner? (proposedThread tid pid b).1) :=
      not_taken_of_none unowned
    refine ⟨?_, ⟨nofun, fun taken => absurd taken.1 spare⟩, nofun⟩
    rintro claim o' b' ⟨⟩
    exact ⟨Estate.threadOwner?_ownThread o _ uuid, rfl,
      ⟨nofun, fun taken => absurd taken spare⟩, rfl⟩
  | own owned =>
    have spare : ¬Taken uuid (o.threadOwner? (proposedThread tid pid b).1) :=
      not_taken_of_own owned
    refine ⟨?_, ⟨nofun, fun taken => absurd taken.1 spare⟩, nofun⟩
    rintro claim o' b' ⟨⟩
    exact ⟨eq_entered_of_own owned, rfl, ⟨nofun, fun taken => absurd taken spare⟩, rfl⟩
  | restarted taken same =>
    refine ⟨?_, ⟨nofun, fun refused => absurd same refused.2⟩, nofun⟩
    rintro claim o' b' ⟨⟩
    exact ⟨Estate.threadOwner?_ownThread o _ uuid, rfl, ⟨fun _ => taken, fun _ => rfl⟩, rfl⟩
  | mismatched taken differ =>
    refine ⟨nofun, ⟨fun _ => ⟨taken, differ⟩, fun _ => ⟨_, _, rfl⟩⟩, ?_⟩
    rintro fault o' b' ⟨⟩
    exact ⟨rfl, rfl⟩

theorem ProcessAnswer.settled {result : EStateM.Result Fault (Owners × β) (Claim .process)}
    (h : ProcessAnswer uuid pid o b result) :
    ∃ claim o' b', result = .ok claim (o', b') ∧ ProcessSettled uuid pid o b claim o' := by
  cases h with
  | free unowned =>
    have spare : ¬Taken uuid (o.processOwner? (proposedProcess pid b).1) :=
      not_taken_of_none unowned
    exact ⟨_, _, _, rfl, Estate.processOwner?_ownProcess o _ uuid, rfl,
      ⟨nofun, fun taken => absurd taken spare⟩, rfl⟩
  | own owned =>
    have spare : ¬Taken uuid (o.processOwner? (proposedProcess pid b).1) :=
      not_taken_of_own owned
    exact ⟨_, _, _, rfl, eq_entered_of_own owned, rfl,
      ⟨nofun, fun taken => absurd taken spare⟩, rfl⟩
  | restarted taken =>
    exact ⟨_, _, _, rfl, Estate.processOwner?_ownProcess o _ uuid, rfl,
      ⟨fun _ => taken, fun _ => rfl⟩, rfl⟩

end Outcomes

def left {α : Type} : EStateM.Result Fault (Owners × β) α → Owners × β
  | .ok _ e => e
  | .error _ e => e

section Calls
variable {b : Audited β}

def threadCalls (uuid : Uuid) (pid : Pid) (tid : Tid) (o : Owners) (b : Audited β) : Array Call :=
  if Taken uuid (o.threadOwner? (proposedThread tid pid b).1) then
    #[.updateThread tid pid, .startThread none tid, .updateThread tid pid]
  else #[.updateThread tid pid]

def processCalls (uuid : Uuid) (pid : Pid) (o : Owners) (b : Audited β) : Array Call :=
  if Taken uuid (o.processOwner? (proposedProcess pid b).1) then
    #[.process pid, .startProcess none none pid .null]
  else #[.process pid]

theorem calls_claimThread (uuid : Uuid) (pid : Pid) (tid : Tid) (o : Owners) (b : Audited β) :
    (left (claimThread uuid pid tid (o, b))).2.calls =
      b.calls ++ threadCalls uuid pid tid o b := by
  have answers := claimThread_answers uuid pid tid o b
  unfold threadCalls
  generalize claimThread uuid pid tid (o, b) = result at *
  cases answers with
  | free unowned =>
    rw [if_neg (not_taken_of_none unowned)]
    rfl
  | own owned =>
    rw [if_neg (not_taken_of_own owned)]
    rfl
  | restarted taken =>
    rw [if_pos taken]
    rfl
  | mismatched taken =>
    rw [if_pos taken]
    rfl

theorem calls_claimProcess (uuid : Uuid) (pid : Pid) (o : Owners) (b : Audited β) :
    (left (claimProcess uuid pid (o, b))).2.calls = b.calls ++ processCalls uuid pid o b := by
  have answers := claimProcess_answers uuid pid o b
  unfold processCalls
  generalize claimProcess uuid pid (o, b) = result at *
  cases answers with
  | free unowned =>
    rw [if_neg (not_taken_of_none unowned)]
    rfl
  | own owned =>
    rw [if_neg (not_taken_of_own owned)]
    rfl
  | restarted taken =>
    rw [if_pos taken]
    rfl

end Calls

section Runs

inductive Demand (β : Type)
  | thread (uuid : Uuid) (pid : Pid) (tid : Tid)
  | process (uuid : Uuid) (pid : Pid)
  | aside (source : β)

def meet (e : Owners × β) : Demand β → Owners × β
  | .thread uuid pid tid => left (claimThread uuid pid tid e)
  | .process uuid pid => left (claimProcess uuid pid e)
  | .aside source => (e.1, source)

/-- If something is started for a claim, then it is nobody's so far. -/
def StartsFree (e : Owners × β) : Demand β → Prop
  | .thread uuid pid tid => Taken uuid (e.1.threadOwner? (proposedThread tid pid e.2).1) →
    e.1.threadOwner? (freshThread tid pid e.2).1 = none
  | .process uuid pid => Taken uuid (e.1.processOwner? (proposedProcess pid e.2).1) →
    e.1.processOwner? (freshProcess pid e.2).1 = none
  | .aside _ => True

instance (e : Owners × β) : (d : Demand β) → Decidable (StartsFree e d)
  | .thread _ _ _ => inferInstanceAs (Decidable (_ → _))
  | .process _ _ => inferInstanceAs (Decidable (_ → _))
  | .aside _ => inferInstanceAs (Decidable True)

def Fair (e : Owners × β) : List (Demand β) → Prop
  | [] => True
  | d :: ds => StartsFree e d ∧ Fair (meet e d) ds

instance Fair.decidable (e : Owners × β) : (ds : List (Demand β)) → Decidable (Fair e ds)
  | [] => inferInstanceAs (Decidable True)
  | d :: ds =>
    have := Fair.decidable (meet e d) ds
    inferInstanceAs (Decidable (_ ∧ _))

structure Retains (o o' : Owners) : Prop where
  threads : ∀ utid v, o.threadOwner? utid = some v → o'.threadOwner? utid = some v
  processes : ∀ upid v, o.processOwner? upid = some v → o'.processOwner? upid = some v

theorem Retains.refl (o : Owners) : o.Retains o := ⟨fun _ _ => id, fun _ _ => id⟩

theorem Retains.trans {o o' o'' : Owners} (h : o.Retains o') (h' : o'.Retains o'') :
    o.Retains o'' :=
  ⟨fun utid v => h'.threads utid v ∘ h.threads utid v,
    fun upid v => h'.processes upid v ∘ h.processes upid v⟩

theorem retains_ownThread {utid : Utid} (free : o.threadOwner? utid = none) (uuid : Uuid) :
    o.Retains (o.ownThread utid uuid) := by
  refine ⟨fun other v owned => ?_, fun _ _ => id⟩
  rw [Estate.threadOwner?_ownThread, if_neg]
  · exact owned
  · rintro rfl
    rw [free] at owned
    cases owned

theorem retains_ownProcess {upid : Upid} (free : o.processOwner? upid = none) (uuid : Uuid) :
    o.Retains (o.ownProcess upid uuid) := by
  refine ⟨fun _ _ => id, fun other v owned => ?_⟩
  rw [Estate.processOwner?_ownProcess, if_neg]
  · exact owned
  · rintro rfl
    rw [free] at owned
    cases owned

theorem retains_meet (e : Owners × β) (d : Demand β) (free : StartsFree e d) :
    e.1.Retains (meet e d).1 := by
  obtain ⟨o, b⟩ := e
  cases d with
  | thread uuid pid tid =>
    have answers := claimThread_answers uuid pid tid o b
    change o.Retains (left (claimThread uuid pid tid (o, b))).1
    generalize claimThread uuid pid tid (o, b) = result at *
    cases answers with
    | free unowned => exact retains_ownThread unowned uuid
    | own => exact .refl o
    | restarted taken => exact retains_ownThread (free taken) uuid
    | mismatched => exact .refl o
  | process uuid pid =>
    have answers := claimProcess_answers uuid pid o b
    change o.Retains (left (claimProcess uuid pid (o, b))).1
    generalize claimProcess uuid pid (o, b) = result at *
    cases answers with
    | free unowned => exact retains_ownProcess unowned uuid
    | own => exact .refl o
    | restarted taken => exact retains_ownProcess (free taken) uuid
  | aside source => exact .refl o

theorem retains_run (e : Owners × β) (ds : List (Demand β)) (fair : Fair e ds) :
    e.1.Retains (ds.foldl meet e).1 := by
  induction ds generalizing e with
  | nil => exact .refl e.1
  | cons d ds ih => exact (retains_meet e d fair.1).trans (ih (meet e d) fair.2)

def occupied : Owners := (empty.ownThread ⟨0⟩ 1).ownProcess ⟨0⟩ 5

example :
    (meet (occupied, (⟨[0, 0, 0]⟩ : Scripted)) (.thread 2 4 7)).1.threadOwner? ⟨0⟩ = some 2 := by
  decide

end Runs

/-- No source of lifetimes can make a claim do anything but this. -/
theorem claims_against_any_source (β : Type) [LifetimeSource β] :
    (∀ uuid pid tid o (b : β),
      ThreadSettled uuid pid tid o b (claimThread uuid pid tid (o, b))) ∧
    (∀ uuid pid o (b : β), ∃ claim o' b', claimProcess uuid pid (o, b) = .ok claim (o', b') ∧
      ProcessSettled uuid pid o b claim o') ∧
    (∀ uuid pid tid o (b : Audited β), (left (claimThread uuid pid tid (o, b))).2.calls =
      b.calls ++ threadCalls uuid pid tid o b) ∧
    (∀ uuid pid o (b : Audited β), (left (claimProcess uuid pid (o, b))).2.calls =
      b.calls ++ processCalls uuid pid o b) ∧
    ∀ (e : Owners × β) (ds : List (Demand β)), Fair e ds → e.1.Retains (ds.foldl meet e).1 :=
  ⟨fun uuid pid tid o b => (claimThread_answers uuid pid tid o b).settled,
    fun uuid pid o b => (claimProcess_answers uuid pid o b).settled,
    calls_claimThread, calls_claimProcess, retains_run⟩

theorem claims_against_any_source_contradicted :
    Fair (occupied, (⟨[0, 1, 1, 0, 2, 0, 0, 9]⟩ : Scripted))
      [.thread 2 4 7, .thread 3 4 7, .process 6 4] ∧
    occupied.Retains ([.thread 2 4 7, .thread 3 4 7, .process 6 4].foldl meet
      (occupied, (⟨[0, 1, 1, 0, 2, 0, 0, 9]⟩ : Scripted))).1 :=
  have fair : Fair (occupied, (⟨[0, 1, 1, 0, 2, 0, 0, 9]⟩ : Scripted))
      [.thread 2 4 7, .thread 3 4 7, .process 6 4] := by decide
  ⟨fair, (claims_against_any_source Scripted).2.2.2.2 _ _ fair⟩

end TraceTracks.Owners
