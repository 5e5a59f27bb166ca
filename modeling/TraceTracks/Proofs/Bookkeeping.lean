import Mathlib.Algebra.BigOperators.Group.List.Lemmas
import Mathlib.Algebra.Ring.Nat
import Mathlib.Data.List.Nodup
import TraceTracks.Proofs.Tables

/-! The tables of a trace after any series of writings. A journal notes each writing with what the
writer was told; rows, primary rows and arguments are exactly what the journal says. -/
namespace TraceTracks

inductive Writing
  | createTrack (scope : Scope) (flavor : Flavor)
  | threadTrack (utid : Utid)
  | processTrack (upid : Upid)
  | setName (track : TrackId) (name : StringId)
  | addArg (track : TrackId) (key : StringId) (value : ArgValue)
  | intern (text : String)
  | count (anomaly : Anomaly)
  deriving DecidableEq

namespace Writing

/-- The entity whose primary row is asked for. -/
def entity? : Writing → Option Scope
  | threadTrack utid => some (.thread utid)
  | processTrack upid => some (.process upid)
  | _ => none

def target? : Writing → Option TrackId
  | setName track _ => some track
  | addArg track _ _ => some track
  | _ => none

theorem ne_global_of_entity? {w : Writing} {scope : Scope} (h : w.entity? = some scope) :
    scope ≠ .global := by
  cases w <;> cases h <;> exact Scope.noConfusion

end Writing

inductive Receipt
  | track (id : TrackId)
  | string (id : StringId)
  | done
  | failed (fault : Fault)
  deriving DecidableEq

/-- Writings with what the writer was told, in their order. -/
abbrev Journal := List (Writing × Receipt)

namespace Journal

def annotation? : Writing × Receipt → Option (TrackId × Arg)
  | (.addArg track key value, .done) => some (track, ⟨key, value⟩)
  | _ => none

def annotations (log : Journal) : List (TrackId × Arg) := log.filterMap annotation?

/-- The arguments that were added to a row, in their order. -/
def argsOf (log : Journal) (track : TrackId) : List Arg :=
  (log.annotations.filter (·.1 = track)).map Prod.snd

theorem sum_length_filter {keys : List TrackId} (nodup : keys.Nodup) (l : List (TrackId × Arg))
    (covers : ∀ e ∈ l, e.1 ∈ keys) :
    (keys.map fun key => (l.filter (·.1 = key)).length).sum = l.length := by
  induction l with
  | nil => simp
  | cons e l ih =>
    have one : (keys.map fun key => if e.1 = key then 1 else 0).sum = 1 := by
      rw [List.sum_map_eq_nsmul_single e.1 _ fun key ne _ => if_neg (Ne.symm ne), if_pos rfl,
        List.count_eq_one_of_mem nodup (covers e List.mem_cons_self), one_nsmul]
    have split (key : TrackId) : ((e :: l).filter (·.1 = key)).length =
        (l.filter (·.1 = key)).length + if e.1 = key then 1 else 0 := by
      by_cases here : e.1 = key <;> simp [here]
    simp only [split]
    rw [List.sum_map_add, one, ih fun e mem => covers e (List.mem_cons_of_mem _ mem),
      List.length_cons]

end Journal

namespace Tracks
variable {t : Tracks} {scope : Scope}

def primary? (t : Tracks) : Scope → Option TrackId
  | .global => none
  | .thread utid => t.threadTrack? utid
  | .process upid => t.processTrack? upid

def addPrimary (t : Tracks) : Scope → Tracks
  | .global => t
  | .thread utid =>
    { (t.create (.thread utid) .slice).2 with
      ofThread := t.ofThread.insert utid (.ofIndex t.rows.size) }
  | .process upid =>
    { (t.create (.process upid) .slice).2 with
      ofProcess := t.ofProcess.insert upid (.ofIndex t.rows.size) }

theorem primary?_empty (scope : Scope) : empty.primary? scope = none := by
  cases scope <;> rfl

theorem rows_addPrimary (entity : scope ≠ .global) (t : Tracks) : (t.addPrimary scope).rows =
    t.rows.push ⟨.ofIndex t.rows.size, .null, scope, .slice⟩ := by
  cases scope with
  | global => exact absurd rfl entity
  | thread utid => rfl
  | process upid => rfl

theorem primary?_addPrimary (entity : scope ≠ .global) (t : Tracks) (other : Scope) :
    (t.addPrimary scope).primary? other =
      if other = scope then some (.ofIndex t.rows.size) else t.primary? other := by
  cases scope <;> cases other <;>
    simp_all [addPrimary, primary?, threadTrack?, processTrack?, create, Registry.get?_insert]

theorem primary?_create (t : Tracks) (scope : Scope) (flavor : Flavor) :
    (t.create scope flavor).2.primary? = t.primary? := by
  funext other
  cases other <;> rfl

theorem sum_counts (t : Tracks) (utid : Utid) (upid : Upid) :
    t.count .global .slice + t.count .global .counter +
    t.count (.process upid) .slice + t.count (.process upid) .counter +
    t.count (.thread utid) .slice + t.count (.thread utid) .counter = t.rows.size := by
  simp only [count, ← Array.countP_toList, ← Array.length_toList]
  induction t.rows.toList with
  | nil => rfl
  | cons row rows ih =>
    obtain ⟨id, name, scope, flavor⟩ := row
    rw [List.length_cons, ← ih]
    cases scope <;> cases flavor <;>
      simp +decide only [List.countP_cons, Scope.sameVariant, ↓reduceIte] <;> omega

end Tracks

namespace Store
variable {s s' : Store} {w : Writing} {r : Receipt} {log : Journal} {scope : Scope}
  {track id : TrackId}

def write (s : Store) : Writing → Receipt × Store
  | .createTrack scope flavor =>
    (.track (s.createTrack scope flavor).1, (s.createTrack scope flavor).2)
  | .threadTrack utid => (.track (s.threadTrack utid).1, (s.threadTrack utid).2)
  | .processTrack upid => (.track (s.processTrack upid).1, (s.processTrack upid).2)
  | .setName track name =>
    match setName track name s with
    | .ok () s => (.done, s)
    | .error e s => (.failed e, s)
  | .addArg track key value =>
    match addArg track key value s with
    | .ok () s => (.done, s)
    | .error e s => (.failed e, s)
  | .intern text => (.string (s.intern text).1, (s.intern text).2)
  | .count anomaly => (.done, s.count anomaly)

def after (s : Store) (ws : List Writing) : Store := ws.foldl (fun s w => (s.write w).2) s

def journal (s : Store) : List Writing → Journal
  | [] => []
  | w :: ws => (w, (s.write w).1) :: (s.write w).2.journal ws

@[simp] theorem after_nil (s : Store) : s.after [] = s := rfl

@[simp] theorem after_cons (s : Store) (w : Writing) (ws : List Writing) :
    s.after (w :: ws) = (s.write w).2.after ws := rfl

@[simp] theorem after_append (s : Store) (ws more : List Writing) :
    s.after (ws ++ more) = (s.after ws).after more := List.foldl_append

section Step

inductive Written (s : Store) : Writing → Receipt → Store → Prop
  | created (scope : Scope) (flavor : Flavor) :
      Written s (.createTrack scope flavor) (.track (.ofIndex s.tracks.rows.size))
        { s with tracks := (s.tracks.create scope flavor).2 }
  | found {w : Writing} {scope : Scope} {id : TrackId} (asks : w.entity? = some scope)
      (known : s.tracks.primary? scope = some id) : Written s w (.track id) s
  | added {w : Writing} {scope : Scope} (asks : w.entity? = some scope)
      (unknown : s.tracks.primary? scope = none) :
      Written s w (.track (.ofIndex s.tracks.rows.size))
        { s with tracks := s.tracks.addPrimary scope }
  | renamed {track : TrackId} {name : StringId} (known : track.index < s.tracks.rows.size) :
      Written s (.setName track name) .done
        { s with
          tracks.rows := s.tracks.rows.modify track.index fun row => { row with name := name } }
  | annotated {track : TrackId} {key : StringId} {value : ArgValue}
      (known : track.index < s.tracks.rows.size) :
      Written s (.addArg track key value) .done { s with args := s.args.add track key value }
  | refused {w : Writing} {track : TrackId} (aims : w.target? = some track)
      (unknown : s.tracks.rows.size ≤ track.index) : Written s w (.failed (.unknownTrack track)) s
  | aside {w : Writing} {r : Receipt} {s' : Store} (asks : w.entity? = none)
      (aims : w.target? = none) (makes : ∀ id, r ≠ .track id) (tracks : s'.tracks = s.tracks)
      (args : s'.args = s.args) : Written s w r s'

theorem written (s : Store) (w : Writing) : Written s w (s.write w).1 (s.write w).2 := by
  cases w with
  | createTrack scope flavor => exact .created scope flavor
  | threadTrack utid =>
    simp only [write, Store.threadTrack, Tracks.threadTrack]
    cases known : s.tracks.threadTrack? utid with
    | some id => exact .found rfl known
    | none =>
      have unknown : s.tracks.primary? (.thread utid) = none := known
      exact .added rfl unknown
  | processTrack upid =>
    simp only [write, Store.processTrack, Tracks.processTrack]
    cases known : s.tracks.processTrack? upid with
    | some id => exact .found rfl known
    | none =>
      have unknown : s.tracks.primary? (.process upid) = none := known
      exact .added rfl unknown
  | setName track name =>
    simp only [write, Store.setName, Tracks.setName]
    by_cases known : track.index < s.tracks.rows.size
    · simp only [if_pos known]
      exact .renamed known
    · simp only [if_neg known]
      exact .refused rfl (Nat.not_lt.mp known)
  | addArg track key value =>
    simp only [write, Store.addArg]
    cases row : s.track? track with
    | some _ => exact .annotated (Array.getElem?_eq_some_iff.mp row).1
    | none => exact .refused rfl (Array.getElem?_eq_none_iff.mp row)
  | intern text => exact .aside rfl rfl (fun _ => Receipt.noConfusion) rfl rfl
  | count anomaly => exact .aside rfl rfl (fun _ => Receipt.noConfusion) rfl rfl

end Step

section Kept

structure Keeps (s s' : Store) : Prop where
  size : s.tracks.rows.size ≤ s'.tracks.rows.size
  rows : ∀ id row, s.track? id = some row → ∃ name, s'.track? id = some { row with name := name }
  primary : ∀ scope id, s.tracks.primary? scope = some id → s'.tracks.primary? scope = some id

theorem Keeps.refl (s : Store) : s.Keeps s :=
  ⟨Nat.le_refl _, fun _ row h => ⟨row.name, h⟩, fun _ _ => id⟩

theorem Keeps.trans {a b c : Store} (h : a.Keeps b) (h' : b.Keeps c) : a.Keeps c := by
  refine ⟨Nat.le_trans h.size h'.size, fun id row here => ?_, fun scope id known => ?_⟩
  · obtain ⟨name, here⟩ := h.rows id row here
    obtain ⟨name', here⟩ := h'.rows id _ here
    exact ⟨name', here⟩
  · exact h'.primary scope id (h.primary scope id known)

theorem keeps_of_push {row : Track} (rows : s'.tracks.rows = s.tracks.rows.push row)
    (primary : ∀ scope id, s.tracks.primary? scope = some id → s'.tracks.primary? scope = some id) :
    s.Keeps s' := by
  refine ⟨by simp [rows], fun id old here => ⟨old.name, ?_⟩, primary⟩
  obtain ⟨inside, here⟩ := Array.getElem?_eq_some_iff.mp here
  rw [track?, Tracks.get?, rows, Array.getElem?_push_lt inside, here]

theorem Written.keeps (h : Written s w r s') : s.Keeps s' := by
  cases h with
  | created scope flavor =>
    exact keeps_of_push rfl fun _ _ known => by rwa [Tracks.primary?_create]
  | found => exact .refl s
  | @added _ scope asks unknown =>
    have entity := Writing.ne_global_of_entity? asks
    refine keeps_of_push (Tracks.rows_addPrimary entity _) fun other id known => ?_
    rw [Tracks.primary?_addPrimary entity, if_neg]
    · exact known
    · rintro rfl
      rw [unknown] at known
      cases known
  | @renamed track name known =>
    refine ⟨by simp, fun id row here => ?_, fun scope _ => by cases scope <;> exact id⟩
    have here : s.tracks.rows[id.index]? = some row := here
    simp only [track?, Tracks.get?, Array.getElem?_modify, here]
    split
    · exact ⟨name, rfl⟩
    · exact ⟨row.name, rfl⟩
  | annotated => exact ⟨Nat.le_refl _, fun _ row here => ⟨row.name, here⟩, fun _ _ => id⟩
  | refused => exact .refl s
  | aside asks aims makes tracks args =>
    refine ⟨Nat.le_of_eq (by rw [tracks]), fun id row here => ⟨row.name, ?_⟩,
      fun _ _ known => tracks ▸ known⟩
    rwa [track?, tracks]

theorem Written.primary?_of_index (h : Written s w r s')
    (fits : s'.tracks.rows.size ≤ UInt32.size) (here : id.index < s.tracks.rows.size)
    (known : s'.tracks.primary? scope = some id) : s.tracks.primary? scope = some id := by
  cases h with
  | created kind flavor => rwa [Tracks.primary?_create] at known
  | found => exact known
  | @added _ kind asks unknown =>
    have entity := Writing.ne_global_of_entity? asks
    have rows := Tracks.rows_addPrimary entity s.tracks
    rw [Tracks.primary?_addPrimary entity] at known
    split at known
    next =>
      cases known
      rw [Handle.index_ofIndex (Nat.lt_of_succ_le (by simpa [rows] using fits))] at here
      exact absurd here (Nat.lt_irrefl _)
    next => exact known
  | renamed => cases scope <;> exact known
  | annotated => exact known
  | refused => exact known
  | aside asks aims makes tracks => rwa [tracks] at known

theorem keeps_after (s : Store) (ws : List Writing) : s.Keeps (s.after ws) := by
  induction ws generalizing s with
  | nil => exact .refl s
  | cons w ws ih => exact (s.written w).keeps.trans (ih _)

theorem primary?_of_index_after (ws : List Writing)
    (fits : (s.after ws).tracks.rows.size ≤ UInt32.size) (here : id.index < s.tracks.rows.size)
    (known : (s.after ws).tracks.primary? scope = some id) : s.tracks.primary? scope = some id := by
  induction ws generalizing s with
  | nil => exact known
  | cons w ws ih =>
    have step := s.written w
    have room := Nat.le_trans ((s.write w).2.keeps_after ws).size fits
    exact step.primary?_of_index room here
      (ih fits (Nat.lt_of_lt_of_le here step.keeps.size) known)

theorem write_of_entity? (asks : w.entity? = some scope) : ∃ id,
    (s.write w).1 = .track id ∧ (s.write w).2.tracks.primary? scope = some id := by
  have step := s.written w
  generalize s.write w = written at *
  obtain ⟨r, s'⟩ := written
  cases step with
  | found asks' known =>
    cases asks.symm.trans asks'
    exact ⟨_, rfl, known⟩
  | added asks' =>
    cases asks.symm.trans asks'
    exact ⟨_, rfl, by rw [Tracks.primary?_addPrimary (Writing.ne_global_of_entity? asks),
      if_pos rfl]⟩
  | created => cases asks
  | renamed => cases asks
  | annotated => cases asks
  | refused aims => cases w <;> cases aims <;> cases asks
  | aside asks' => cases asks.symm.trans asks'

end Kept

section Rows

def Numbered (s : Store) : Prop :=
  ∀ i (row : Track), s.tracks.rows[i]? = some row → row.id = .ofIndex i

theorem Numbered.of_push (h : s.Numbered) {row : Track} (id : row.id = .ofIndex s.tracks.rows.size)
    (rows : s'.tracks.rows = s.tracks.rows.push row) : s'.Numbered := by
  intro i other here
  rw [rows, Array.getElem?_push] at here
  split at here
  next last =>
    cases here
    rw [last, id]
  next => exact h i other here

theorem Numbered.of_written (h : s.Numbered) (written : Written s w r s') : s'.Numbered := by
  cases written with
  | created scope flavor => exact h.of_push rfl rfl
  | found => exact h
  | added asks => exact h.of_push rfl (Tracks.rows_addPrimary (Writing.ne_global_of_entity? asks) _)
  | renamed =>
    intro i row here
    simp only [Array.getElem?_modify] at here
    split at here
    next =>
      obtain ⟨old, there, rfl⟩ := Option.map_eq_some_iff.mp here
      exact h i old there
    next => exact h i row here
  | annotated => exact h
  | refused => exact h
  | aside asks aims makes tracks =>
    rw [Numbered, tracks]
    exact h

theorem track?_of_push {row : Track} (rows : s'.tracks.rows = s.tracks.rows.push row)
    (next : id.index = s.tracks.rows.size) : s'.track? id = some row := by
  rw [track?, Tracks.get?, rows, next, Array.getElem?_push_size]

end Rows

section Primaries

/-- Primary rows are those that were told to whoever asked for an entity; they are slices of that
entity, and none of them was made for another purpose. -/
structure Primaries (log : Journal) (s : Store) : Prop where
  told : ∀ scope id, s.tracks.primary? scope = some id ↔
    ∃ w, w.entity? = some scope ∧ (w, .track id) ∈ log
  answered : ∀ w scope r, (w, r) ∈ log → w.entity? = some scope → ∃ id, r = .track id
  row : ∀ scope id, s.tracks.primary? scope = some id →
    ∃ name, s.track? id = some ⟨id, name, scope, .slice⟩
  created : ∀ scope flavor id, (.createTrack scope flavor, .track id) ∈ log →
    (∃ name, s.track? id = some ⟨id, name, scope, flavor⟩) ∧
    ∀ other, s.tracks.primary? other ≠ some id

namespace Primaries

theorem index_lt (h : Primaries log s) (known : s.tracks.primary? scope = some id) :
    id.index < s.tracks.rows.size := by
  obtain ⟨name, here⟩ := h.row scope id known
  exact (Array.getElem?_eq_some_iff.mp here).1

theorem row_of_keeps (keeps : s.Keeps s') {flavor : Flavor}
    (here : ∃ name, s.track? id = some ⟨id, name, scope, flavor⟩) :
    ∃ name, s'.track? id = some ⟨id, name, scope, flavor⟩ := by
  obtain ⟨name, here⟩ := here
  exact keeps.rows id _ here

theorem aside (h : Primaries log s) (keeps : s.Keeps s')
    (same : s'.tracks.primary? = s.tracks.primary?) (asks : w.entity? = none)
    (makes : ∀ scope flavor id, w = .createTrack scope flavor → r = .track id →
      (∃ name, s'.track? id = some ⟨id, name, scope, flavor⟩) ∧
      ∀ other, s.tracks.primary? other ≠ some id) :
    Primaries (log ++ [(w, r)]) s' := by
  constructor
  case told =>
    intro scope id
    rw [same, h.told]
    refine exists_congr fun other => and_congr_right fun asked => ?_
    rw [List.mem_append, List.mem_singleton, or_iff_left]
    rintro ⟨⟩
    rw [asks] at asked
    cases asked
  case answered =>
    intro other scope told mem asked
    rcases List.mem_append.mp mem with mem | mem
    · exact h.answered other scope told mem asked
    · cases List.mem_singleton.mp mem
      rw [asks] at asked
      cases asked
  case row => exact fun scope id known => row_of_keeps keeps (h.row scope id (same ▸ known))
  case created =>
    intro scope flavor id mem
    rcases List.mem_append.mp mem with mem | mem
    · obtain ⟨here, other⟩ := h.created scope flavor id mem
      exact ⟨row_of_keeps keeps here, same ▸ other⟩
    · cases List.mem_singleton.mp mem
      exact same ▸ makes scope flavor id rfl rfl

theorem asked (h : Primaries log s) (keeps : s.Keeps s') (asks : w.entity? = some scope)
    (primary : ∀ other found, s'.tracks.primary? other = some found ↔
      s.tracks.primary? other = some found ∨ other = scope ∧ found = id)
    (row : ∃ name, s'.track? id = some ⟨id, name, scope, .slice⟩)
    (other : ∀ scope flavor, (.createTrack scope flavor, .track id) ∉ log) :
    Primaries (log ++ [(w, .track id)]) s' := by
  constructor
  case told =>
    intro entity found
    rw [primary, h.told]
    constructor
    · rintro (⟨w, asked, mem⟩ | ⟨rfl, rfl⟩)
      · exact ⟨w, asked, List.mem_append_left _ mem⟩
      · exact ⟨w, asks, List.mem_append_right _ (List.mem_singleton.mpr rfl)⟩
    · rintro ⟨w', asked, mem⟩
      rcases List.mem_append.mp mem with mem | mem
      · exact .inl ⟨w', asked, mem⟩
      · cases List.mem_singleton.mp mem
        exact .inr ⟨Option.some.inj (asked.symm.trans asks), rfl⟩
  case answered =>
    intro w' entity r mem asked
    rcases List.mem_append.mp mem with mem | mem
    · exact h.answered w' entity r mem asked
    · cases List.mem_singleton.mp mem
      exact ⟨id, rfl⟩
  case row =>
    intro entity found known
    rcases (primary entity found).mp known with known | ⟨rfl, rfl⟩
    · exact row_of_keeps keeps (h.row entity found known)
    · exact row
  case created =>
    intro scope flavor made mem
    rcases List.mem_append.mp mem with mem | mem
    · obtain ⟨here, apart⟩ := h.created scope flavor made mem
      refine ⟨row_of_keeps keeps here, fun entity known => ?_⟩
      rcases (primary entity made).mp known with known | ⟨-, same⟩
      · exact apart entity known
      · exact other scope flavor (same ▸ mem)
    · cases List.mem_singleton.mp mem
      cases asks

theorem index_lt_of_created (h : Primaries log s) {flavor : Flavor}
    (mem : (.createTrack scope flavor, .track id) ∈ log) : id.index < s.tracks.rows.size := by
  obtain ⟨⟨name, here⟩, -⟩ := h.created scope flavor id mem
  exact (Array.getElem?_eq_some_iff.mp here).1

theorem ne_of_index (h : Primaries log s) (next : id.index = s.tracks.rows.size) (scope : Scope) :
    s.tracks.primary? scope ≠ some id :=
  fun known => Nat.ne_of_lt (h.index_lt known) next

theorem of_written (h : Primaries log s) (written : Written s w r s')
    (fits : s'.tracks.rows.size ≤ UInt32.size) : Primaries (log ++ [(w, r)]) s' := by
  have keeps := written.keeps
  cases written with
  | created scope flavor =>
    refine h.aside keeps (s.tracks.primary?_create scope flavor) rfl ?_
    rintro _ _ _ ⟨⟩ ⟨⟩
    have next : (Handle.ofIndex s.tracks.rows.size : TrackId).index = s.tracks.rows.size :=
      Handle.index_ofIndex (Nat.lt_of_succ_le (by simpa [Tracks.create] using fits))
    exact ⟨⟨.null, track?_of_push rfl next⟩, h.ne_of_index next⟩
  | @found _ scope id asks known =>
    refine h.asked keeps asks (fun other found => ?_) (h.row scope id known) ?_
    · refine ⟨.inl, ?_⟩
      rintro (known' | ⟨rfl, rfl⟩)
      · exact known'
      · exact known
    · exact fun other flavor mem => (h.created other flavor id mem).2 scope known
  | @added _ scope asks unknown =>
    have entity := Writing.ne_global_of_entity? asks
    have rows := Tracks.rows_addPrimary entity s.tracks
    have next : (Handle.ofIndex s.tracks.rows.size : TrackId).index = s.tracks.rows.size :=
      Handle.index_ofIndex (Nat.lt_of_succ_le (by simpa [rows] using fits))
    refine h.asked keeps asks (fun other found => ?_) ⟨.null, track?_of_push rows next⟩
      fun other flavor mem => ?_
    · rw [Tracks.primary?_addPrimary entity]
      split
      next same =>
        rw [same, unknown]
        simp [eq_comm]
      next differ => simp [differ]
    · exact Nat.ne_of_lt (h.index_lt_of_created mem) next
  | renamed => exact h.aside keeps (by funext other; cases other <;> rfl) rfl (by rintro _ _ _ ⟨⟩)
  | annotated => exact h.aside keeps rfl rfl (by rintro _ _ _ ⟨⟩)
  | refused aims =>
    exact h.aside keeps rfl (by cases w <;> cases aims <;> rfl) (by rintro _ _ _ - ⟨⟩)
  | aside asks aims makes tracks =>
    exact h.aside keeps (by rw [tracks]) asks fun _ _ id _ told => absurd told (makes id)

end Primaries
end Primaries

section Annotations

structure Annotated (log : Journal) (s : Store) : Prop where
  args : ∀ track, s.args.ofTrack track = log.argsOf track
  total : s.args.total = log.annotations.length
  known : ∀ e ∈ log.annotations, e.1.index < s.tracks.rows.size

namespace Annotated

theorem aside (h : Annotated log s) (keeps : s.Keeps s') (args : s'.args = s.args)
    (silent : Journal.annotation? (w, r) = none) : Annotated (log ++ [(w, r)]) s' := by
  have same : Journal.annotations (log ++ [(w, r)]) = log.annotations := by
    simp [Journal.annotations, silent]
  constructor
  · intro track
    rw [args, h.args, Journal.argsOf, Journal.argsOf, same]
  · rw [args, h.total, same]
  · rw [same]
    exact fun e mem => Nat.lt_of_lt_of_le (h.known e mem) keeps.size

theorem of_written (h : Annotated log s) (written : Written s w r s') :
    Annotated (log ++ [(w, r)]) s' := by
  have keeps := written.keeps
  cases written with
  | @annotated track key value known =>
    have more : Journal.annotations (log ++ [(.addArg track key value, .done)]) =
        log.annotations ++ [(track, ⟨key, value⟩)] := by
      simp [Journal.annotations, Journal.annotation?]
    constructor
    · intro other
      rw [Args.ofTrack_add, Journal.argsOf, more, List.filter_append, List.map_append,
        ← Journal.argsOf, h.args, h.args]
      by_cases same : other = track
      · simp [same]
      · simp [same, Ne.symm same]
    · rw [more, List.length_append, ← h.total]
      rfl
    · rw [more]
      intro e mem
      rcases List.mem_append.mp mem with mem | mem
      · exact h.known e mem
      · cases List.mem_singleton.mp mem
        exact known
  | created => exact h.aside keeps rfl rfl
  | found asks => exact h.aside keeps rfl (by cases w <;> cases asks <;> rfl)
  | added asks => exact h.aside keeps rfl (by cases w <;> cases asks <;> rfl)
  | renamed => exact h.aside keeps rfl rfl
  | refused aims => exact h.aside keeps rfl (by cases w <;> cases aims <;> rfl)
  | aside asks aims makes tracks args =>
    exact h.aside keeps args (by cases w <;> cases aims <;> rfl)

end Annotated
end Annotations

section Run

structure Books (log : Journal) (s : Store) : Prop where
  numbered : s.Numbered
  primaries : Primaries log s
  annotated : Annotated log s

namespace Books

theorem empty : Books [] Store.empty where
  numbered _ _ here := by cases here
  primaries := by
    have none (scope : Scope) (id : TrackId) : Store.empty.tracks.primary? scope ≠ some id := by
      rw [Store.empty, Tracks.primary?_empty]
      exact nofun
    constructor
    case told =>
      intro scope id
      refine ⟨fun known => absurd known (none scope id), ?_⟩
      rintro ⟨w, -, mem⟩
      exact absurd mem List.not_mem_nil
    case answered => exact fun _ _ _ mem => absurd mem List.not_mem_nil
    case row => exact fun scope id known => absurd known (none scope id)
    case created => exact fun _ _ _ mem => absurd mem List.not_mem_nil
  annotated := ⟨fun _ => rfl, rfl, nofun⟩

theorem of_written (h : Books log s) (written : Written s w r s')
    (fits : s'.tracks.rows.size ≤ UInt32.size) : Books (log ++ [(w, r)]) s' where
  numbered := h.numbered.of_written written
  primaries := h.primaries.of_written written fits
  annotated := h.annotated.of_written written

theorem after (h : Books log s) (ws : List Writing)
    (fits : (s.after ws).tracks.rows.size ≤ UInt32.size) :
    Books (log ++ s.journal ws) (s.after ws) := by
  induction ws generalizing s log with
  | nil => rwa [journal, List.append_nil]
  | cons w ws ih =>
    have room := Nat.le_trans ((s.write w).2.keeps_after ws).size fits
    have rest := ih (h.of_written (s.written w) room) fits
    rwa [List.append_assoc, List.singleton_append] at rest

/-- Each argument is on one row, and so the rows have all of them between them. -/
theorem sum_args (h : Books log s) (fits : s.tracks.rows.size ≤ UInt32.size) :
    (s.tracks.rows.toList.map fun row => (s.args.ofTrack row.id).length).sum = s.args.total := by
  have ids : s.tracks.rows.toList.map Track.id =
      (List.range s.tracks.rows.size).map Handle.ofIndex := by
    refine List.ext_getElem (by simp) fun i inside _ => ?_
    have here := h.numbered i _ (Array.getElem?_eq_getElem (by simpa using inside))
    simpa using here
  have nodup : (s.tracks.rows.toList.map Track.id).Nodup := by
    rw [ids]
    refine List.Nodup.map_on (fun i inside j inside' same => ?_) List.nodup_range
    have index (n : Nat) (mem : n ∈ List.range s.tracks.rows.size) :
        (Handle.ofIndex n : TrackId).index = n :=
      Handle.index_ofIndex (Nat.lt_of_lt_of_le (List.mem_range.mp mem) fits)
    rw [← index i inside, ← index j inside', same]
  have covers (e : TrackId × Arg) (mem : e ∈ log.annotations) :
      e.1 ∈ s.tracks.rows.toList.map Track.id := by
    rw [ids]
    exact List.mem_map.mpr ⟨e.1.index, List.mem_range.mpr (h.annotated.known e mem),
      Handle.ofIndex_index e.1⟩
  have fibers := Journal.sum_length_filter nodup log.annotations covers
  rw [h.annotated.total, ← fibers, List.map_map]
  congr 1
  refine List.map_congr_left fun row _ => ?_
  simp only [h.annotated.args, Journal.argsOf, List.length_map, Function.comp]

end Books

theorem write_of_primary? (known : s.tracks.primary? scope = some id)
    (asks : w.entity? = some scope) : s.write w = (.track id, s) := by
  cases w <;> cases asks <;>
    simp_all [write, threadTrack, Tracks.threadTrack, processTrack, Tracks.processTrack,
      Tracks.primary?]

theorem write_of_unknown (unknown : s.tracks.rows.size ≤ track.index)
    (aims : w.target? = some track) : s.write w = (.failed (.unknownTrack track), s) := by
  have absent : s.track? track = none := Array.getElem?_eq_none_iff.mpr unknown
  cases w <;> cases aims <;>
    simp [write, setName, Tracks.setName, addArg, absent, Nat.not_lt.mpr unknown]

theorem write_of_known (known : track.index < s.tracks.rows.size)
    (aims : w.target? = some track) : (s.write w).1 = .done := by
  have here : s.track? track = some s.tracks.rows[track.index] := Array.getElem?_eq_getElem known
  cases w <;> cases aims <;> simp [write, setName, Tracks.setName, addArg, here, known]

end Run

/-- What the tables have to say about the journal of how they came to be. -/
structure Consistent (log : Journal) (s : Store) : Prop where
  place : ∀ i (row : Track), s.tracks.rows[i]? = some row → row.id.index = i
  forever : ∀ more id row, s.track? id = some row →
    ∃ name, (s.after more).track? id = some { row with name := name }
  made : ∀ scope flavor id, (.createTrack scope flavor, .track id) ∈ log →
    ∃ name, s.track? id = some ⟨id, name, scope, flavor⟩
  asked : ∀ w scope r, (w, r) ∈ log → w.entity? = some scope →
    ∃ id, r = .track id ∧ s.tracks.primary? scope = some id
  primary : ∀ scope id, s.tracks.primary? scope = some id →
    ∃ name, s.track? id = some ⟨id, name, scope, .slice⟩
  again : ∀ scope id, s.tracks.primary? scope = some id → ∀ more w, w.entity? = some scope →
    (s.after more).write w = (.track id, s.after more)
  apart : ∀ scope id, s.tracks.primary? scope = some id →
    (∀ other, s.tracks.primary? other = some id → other = scope) ∧
    ∀ kind flavor, (.createTrack kind flavor, .track id) ∉ log
  refusal : ∀ w track, w.target? = some track →
    ((s.write w).1 = .failed (.unknownTrack track) ↔ s.tracks.rows.size ≤ track.index) ∧
    (s.tracks.rows.size ≤ track.index → s.write w = (.failed (.unknownTrack track), s))
  success : ∀ w track, w.target? = some track →
    ((s.write w).1 = .done ↔ track.index < s.tracks.rows.size)
  args : ∀ track, s.args.ofTrack track = log.argsOf track
  beyond : ∀ track, s.tracks.rows.size ≤ track.index → s.args.ofTrack track = []
  first : ∀ track key, s.arg? track key = ((log.argsOf track).find? (·.key = key)).map Arg.value
  total : s.args.total = log.annotations.length ∧
    (s.tracks.rows.toList.map fun row => (s.args.ofTrack row.id).length).sum = s.args.total
  counts : ∀ utid upid,
    s.tracks.count .global .slice + s.tracks.count .global .counter +
    s.tracks.count (.process upid) .slice + s.tracks.count (.process upid) .counter +
    s.tracks.count (.thread utid) .slice + s.tracks.count (.thread utid) .counter =
      s.tracks.rows.size

theorem Books.consistent (h : Books log s) (fits : s.tracks.rows.size ≤ UInt32.size) :
    Consistent log s := by
  have beyond (track : TrackId) (unknown : s.tracks.rows.size ≤ track.index) :
      log.argsOf track = [] := by
    refine List.map_eq_nil_iff.mpr (List.filter_eq_nil_iff.mpr fun e mem same => ?_)
    have known := h.annotated.known e mem
    rw [of_decide_eq_true same] at known
    exact Nat.not_lt.mpr unknown known
  constructor
  case place =>
    intro i row here
    obtain ⟨inside, -⟩ := Array.getElem?_eq_some_iff.mp here
    rw [h.numbered i row here, Handle.index_ofIndex (Nat.lt_of_lt_of_le inside fits)]
  case forever => exact fun more => (s.keeps_after more).rows
  case made => exact fun scope flavor id mem => (h.primaries.created scope flavor id mem).1
  case asked =>
    intro w scope r mem asks
    obtain ⟨id, rfl⟩ := h.primaries.answered w scope r mem asks
    exact ⟨id, rfl, (h.primaries.told scope id).mpr ⟨w, asks, mem⟩⟩
  case primary => exact h.primaries.row
  case again =>
    intro scope id known more w asks
    exact write_of_primary? ((s.keeps_after more).primary scope id known) asks
  case apart =>
    intro scope id known
    refine ⟨fun other known' => ?_, fun kind flavor mem =>
      (h.primaries.created kind flavor id mem).2 scope known⟩
    obtain ⟨name, here⟩ := h.primaries.row scope id known
    obtain ⟨name', here'⟩ := h.primaries.row other id known'
    rw [here] at here'
    cases here'
    rfl
  case refusal =>
    intro w track aims
    refine ⟨⟨fun failed => ?_, fun unknown => ?_⟩, fun unknown => write_of_unknown unknown aims⟩
    · by_contra known
      rw [write_of_known (Nat.lt_of_not_le known) aims] at failed
      cases failed
    · rw [write_of_unknown unknown aims]
  case success =>
    intro w track aims
    refine ⟨fun done => ?_, fun known => write_of_known known aims⟩
    by_contra unknown
    rw [write_of_unknown (Nat.le_of_not_lt unknown) aims] at done
    cases done
  case args => exact h.annotated.args
  case beyond => exact fun track unknown => (h.annotated.args track).trans (beyond track unknown)
  case first =>
    intro track key
    rw [arg?, Args.get?, h.annotated.args]
  case total => exact ⟨h.annotated.total, h.sum_args fits⟩
  case counts => exact fun utid upid => s.tracks.sum_counts utid upid

/-- However calls follow each other, failed ones among them. -/
theorem tables_stay_consistent (ws : List Writing)
    (fits : (empty.after ws).tracks.rows.size ≤ UInt32.size) :
    Consistent (empty.journal ws) (empty.after ws) :=
  (Books.empty.after ws fits).consistent fits

def interleaved : List Writing :=
  [.addArg ⟨1⟩ ⟨5⟩ (.integer 1), .createTrack (.thread ⟨7⟩) .slice, .threadTrack ⟨7⟩,
    .addArg ⟨1⟩ ⟨5⟩ (.integer 2), .setName ⟨2⟩ ⟨9⟩, .addArg ⟨0⟩ ⟨5⟩ (.string ⟨3⟩),
    .processTrack ⟨7⟩, .addArg ⟨1⟩ ⟨5⟩ (.integer 4), .setName ⟨2⟩ ⟨9⟩, .threadTrack ⟨7⟩,
    .createTrack .global .counter]

theorem tables_stay_consistent_interleaved :
    Consistent (empty.journal interleaved) (empty.after interleaved) ∧
    (empty.after interleaved).args.ofTrack ⟨1⟩ = [⟨⟨5⟩, .integer 2⟩, ⟨⟨5⟩, .integer 4⟩] :=
  ⟨tables_stay_consistent interleaved (by decide +kernel), by decide +kernel⟩

end Store
end TraceTracks
