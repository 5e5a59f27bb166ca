import Mathlib.Algebra.BigOperators.Group.List.Basic
import Mathlib.Algebra.Ring.Int.Defs
import Mathlib.Data.List.DropRight
import TraceTracks.Proofs.Postings

/-! What a counter reads, from all that was posted. Its first announcement decides how samples are
scaled and which of them are taken, and its total is what was taken since the last reset of its
sequence, scaled and added up in the integers and reduced to 64 bits at the end. -/
namespace TraceTracks

namespace Posting

/-- What matters to a counter: samples of its uuid, and resets of its sequence. -/
def bears (u : Uuid) (r : Reservation) : Posting → Bool
  | reserve _ _ => false
  | sample v _ _ => v == u
  | clear s => s == r.sequence

def taken? (u : Uuid) (r : Reservation) : Posting → Option Int
  | sample v s x => if v = u ∧ r.accepts s then some x.toInt else none
  | _ => none

end Posting

namespace Reservation
variable {r r' : Reservation} {u : Uuid}

def advance (u : Uuid) (r : Reservation) (total : Int64) : Posting → Int64
  | .reserve _ _ => total
  | .sample v s x => if v = u ∧ r.accepts s ∧ r.incremental then r.scale x + total else total
  | .clear s => if r.incremental ∧ r.sequence = s then 0 else total

theorem total_merge (r other : Reservation) : (r.merge other).total = r.total := by
  unfold merge
  split <;> rfl

theorem advance_of_still (h : r'.still = r.still) : r'.advance u = r.advance u :=
  congr_of_still (advance u) h fun _ => rfl

theorem accepts_of_still (h : r'.still = r.still) : r'.accepts = r.accepts :=
  congr_of_still accepts h fun _ => rfl

theorem incremental_of_still (h : r'.still = r.still) : r'.incremental = r.incremental :=
  congr_of_still incremental h fun _ => rfl

theorem scale_of_still (h : r'.still = r.still) : r'.scale = r.scale :=
  congr_of_still scale h fun _ => rfl

theorem total_heed (u : Uuid) (r : Reservation) (p : Posting) :
    (r.heed u p).total = r.advance u r.total p := by
  cases p with
  | reserve v other =>
    simp only [heed, advance]
    split
    · exact total_merge r other
    · rfl
  | sample v s x =>
    simp only [heed, advance]
    split
    next taken => simp only [absolute, taken.2.2, if_true]
    next => rfl
  | clear s => simp only [heed, advance]; split <;> rfl

theorem total_foldl_heed (u : Uuid) (r : Reservation) (ps : List Posting) :
    (ps.foldl (heed u) r).total = ps.foldl (r.advance u) r.total := by
  induction ps generalizing r with
  | nil => rfl
  | cons p ps ih =>
    rw [List.foldl_cons, ih, advance_of_still (still_heed u r p), total_heed, List.foldl_cons]

theorem foldl_advance_filter (u : Uuid) (r : Reservation) (total : Int64) (ps : List Posting) :
    (ps.filter (Posting.bears u r)).foldl (r.advance u) total = ps.foldl (r.advance u) total := by
  induction ps generalizing total with
  | nil => rfl
  | cons p ps ih =>
    rw [List.filter_cons, List.foldl_cons]
    split
    next => rw [List.foldl_cons, ih]
    next foreign =>
      have idle : r.advance u total p = total := by
        cases p with
        | reserve v other => rfl
        | sample v s x => exact if_neg fun taken => foreign (by simp [Posting.bears, taken.1])
        | clear s => exact if_neg fun reset => foreign (by simp [Posting.bears, reset.2])
      rw [ih, idle]

def multiplier (r : Reservation) : Int := if 0 < r.unit then r.unit.toInt else 1

theorem scale_eq (r : Reservation) (x : Int64) :
    r.scale x = Int64.ofInt (r.multiplier * x.toInt) := by
  unfold scale multiplier
  split
  · rw [Int64.ofInt_mul, Int64.ofInt_toInt, Int64.ofInt_toInt, Int64.mul_comm]
  · rw [Int.one_mul, Int64.ofInt_toInt]

def recent (r : Reservation) (ps : List Posting) : List Posting :=
  ps.rtakeWhile fun p => p != .clear r.sequence

/-- What the counter was at, when its sequence was last reset or else when it was announced. -/
def base (r : Reservation) (ps : List Posting) : Int :=
  if .clear r.sequence ∈ ps then 0 else r.total.toInt

/-- The total of an incremental counter, given what was posted since it was announced. -/
def tally (u : Uuid) (r : Reservation) (ps : List Posting) : Int :=
  r.base ps + r.multiplier * ((r.recent ps).filterMap (Posting.taken? u r)).sum

theorem tally_nil (u : Uuid) (r : Reservation) : r.tally u [] = r.total.toInt := by
  simp [tally, recent, base]

theorem tally_reset (u : Uuid) (r : Reservation) (ps : List Posting) :
    r.tally u (ps ++ [.clear r.sequence]) = 0 := by
  simp [tally, recent, base]

theorem tally_concat (u : Uuid) (ps : List Posting) {p : Posting} (h : p ≠ .clear r.sequence) :
    r.tally u (ps ++ [p]) = r.tally u ps + r.multiplier * (p.taken? u r).getD 0 := by
  have base : r.base (ps ++ [p]) = r.base ps := by simp [base, Ne.symm h]
  have recent : r.recent (ps ++ [p]) = r.recent ps ++ [p] := by simp [recent, h]
  have added : ([p].filterMap (Posting.taken? u r)).sum = (p.taken? u r).getD 0 := by
    cases taken : p.taken? u r <;> simp [taken]
  rw [tally, base, recent, List.filterMap_append, List.sum_append, added, Int.mul_add,
    ← Int.add_assoc, tally]

/-- Wrapping at every step comes to wrapping once. -/
theorem foldl_advance (incremental : r.incremental) (u : Uuid) (ps : List Posting) :
    ps.foldl (r.advance u) r.total = Int64.ofInt (r.tally u ps) := by
  induction ps using List.reverseRecOn with
  | nil => rw [tally_nil, Int64.ofInt_toInt, List.foldl_nil]
  | append_singleton ps p ih =>
    rw [List.foldl_concat, ih]
    by_cases reset : p = .clear r.sequence
    · subst reset
      rw [tally_reset]
      exact if_pos ⟨incremental, rfl⟩
    rw [tally_concat u ps reset, Int64.ofInt_add, Int64.add_comm]
    cases p with
    | reserve v other => simp [advance, Posting.taken?]
    | clear s =>
      have other : r.sequence ≠ s := fun same => reset (by rw [same])
      simp [advance, Posting.taken?, other]
    | sample v s x =>
      by_cases taken : v = u ∧ r.accepts s
      · simp [advance, Posting.taken?, taken, incremental, scale_eq]
      · have untaken : ¬(v = u ∧ r.accepts s ∧ r.incremental) := fun h => taken ⟨h.1, h.2.1⟩
        simp [advance, Posting.taken?, taken, untaken]

theorem accepts_eq_false_iff (s : Sequence) : r.accepts s = false ↔
    r.isCounter = false ∨ r.incremental = true ∧ s ≠ r.sequence := by
  rw [accepts, Bool.and_eq_false_iff, Bool.or_eq_false_iff, Bool.not_eq_false',
    beq_eq_false_iff_ne, ne_comm]

theorem absolute_foldl_heed {s : Sequence} (incremental : r.incremental) (accepted : r.accepts s)
    (x : Int64) (later : List Posting) : (later.foldl (heed u) r).absolute x =
      Int64.ofInt (r.tally u (later ++ [.sample u s x])) := by
  have still := still_foldl_heed u r later
  rw [← foldl_advance incremental, List.foldl_concat, ← total_foldl_heed]
  simp [absolute, advance, incremental_of_still still, scale_of_still still, incremental, accepted]

end Reservation

namespace Reservations
variable {rs : Reservations} {u : Uuid} {r : Reservation} {s : Sequence}
  {ps ps' later later' : List Posting}

theorem sample_of_none (h : rs.get? u = none) (s : Sequence) (x : Int64) :
    rs.sample u s x = (none, rs) := by
  simp [sample, h]

theorem sample_of_absolute (h : rs.get? u = some r) (accepted : r.accepts s)
    (absolute : r.incremental = false) (x : Int64) :
    rs.sample u s x = (some (r.scale x), rs) := by
  simp [sample, h, accepted, absolute, Reservation.absolute]

theorem snd_sample_of_refused {x : Int64} (refused : (rs.sample u s x).1 = none) :
    (rs.sample u s x).2 = rs := by
  cases found : rs.get? u with
  | none => rw [sample_of_none found]
  | some r =>
    cases accepted : r.accepts s with
    | false => simp [sample, found, accepted]
    | true =>
      rw [fst_sample, found, Option.bind_some, accepted, if_pos rfl] at refused
      cases refused

theorem get?_after_opening (opens : Posting.opening? u ps = some (r, later)) :
    (empty.after ps).get? u = some (later.foldl (Reservation.heed u) r) := by
  rw [get?_after, opens, Option.map_some]

theorem fst_sample_after (opens : Posting.opening? u ps = some (r, later)) (s : Sequence)
    (x : Int64) : ((empty.after ps).sample u s x).1 =
      if r.accepts s then some ((later.foldl (Reservation.heed u) r).absolute x) else none := by
  have still := Reservation.still_foldl_heed u r later
  rw [fst_sample, get?_after_opening opens, Option.bind_some, Reservation.accepts_of_still still]

theorem get?_sample_after (opens : Posting.opening? u ps = some (r, later)) (accepted : r.accepts s)
    (incremental : r.incremental) (x : Int64) (v : Uuid) :
    ((empty.after ps).sample u s x).2.get? v =
      if v = u then ((empty.after ps).get? u).map
        ({ · with total := (later.foldl (Reservation.heed u) r).absolute x })
      else (empty.after ps).get? v := by
  have still := Reservation.still_foldl_heed u r later
  rw [get?_sample, get?_after_opening opens, Option.map_some, Option.map_some,
    Reservation.accepts_of_still still, accepted, Reservation.incremental_of_still still,
    incremental]
  rfl

theorem fst_sample_congr (opens : Posting.opening? u ps = some (r, later))
    (opens' : Posting.opening? u ps' = some (r, later'))
    (same : later'.filter (Posting.bears u r) = later.filter (Posting.bears u r)) (s : Sequence)
    (x : Int64) : ((empty.after ps').sample u s x).1 = ((empty.after ps).sample u s x).1 := by
  have still (later : List Posting) := Reservation.still_foldl_heed u r later
  have total : (later'.foldl (Reservation.heed u) r).total =
      (later.foldl (Reservation.heed u) r).total := by
    rw [Reservation.total_foldl_heed, ← Reservation.foldl_advance_filter, same,
      Reservation.foldl_advance_filter, ← Reservation.total_foldl_heed]
  rw [fst_sample_after opens, fst_sample_after opens']
  simp only [Reservation.absolute, total, Reservation.incremental_of_still (still _),
    Reservation.scale_of_still (still _)]

/-- A sample is refused, and changes nothing, unless it is for a counter that was announced, and
comes in the sequence of that counter if it is incremental. A counter that is not incremental scales
it and changes nothing; one that is reads and stores its total. What is posted to others, or
announced of the counter again, has no part in it. -/
theorem counters_read (ps : List Posting) (u : Uuid) (s : Sequence) (x : Int64) :
    (Posting.opening? u ps = none → (empty.after ps).sample u s x = (none, empty.after ps)) ∧
    ∀ r later, Posting.opening? u ps = some (r, later) →
      (((empty.after ps).sample u s x).1 = none ↔
        r.isCounter = false ∨ r.incremental = true ∧ s ≠ r.sequence) ∧
      (((empty.after ps).sample u s x).1 = none →
        ((empty.after ps).sample u s x).2 = empty.after ps) ∧
      (r.isCounter = true → r.incremental = false → (empty.after ps).sample u s x =
        (some (Int64.ofInt (r.multiplier * x.toInt)), empty.after ps)) ∧
      (r.isCounter = true → r.incremental = true → s = r.sequence →
        ∃ total, total = Int64.ofInt (r.tally u (later ++ [.sample u s x])) ∧
          ((empty.after ps).sample u s x).1 = some total ∧
          ∀ v, ((empty.after ps).sample u s x).2.get? v =
            if v = u then ((empty.after ps).get? u).map ({ · with total := total })
            else (empty.after ps).get? v) ∧
      ∀ ps' later', Posting.opening? u ps' = some (r, later') →
        later'.filter (Posting.bears u r) = later.filter (Posting.bears u r) →
        ((empty.after ps').sample u s x).1 = ((empty.after ps).sample u s x).1 := by
  constructor
  · intro closed
    apply sample_of_none
    rw [get?_after, closed, Option.map_none]
  intro r later opens
  have still := Reservation.still_foldl_heed u r later
  refine ⟨?_, snd_sample_of_refused, ?_, ?_, ?_⟩
  · rw [← Reservation.accepts_eq_false_iff, fst_sample_after opens]
    simp
  · intro counter absolute
    have accepted : r.accepts s := by simp [Reservation.accepts, counter, absolute]
    rw [← Reservation.scale_eq, ← Reservation.scale_of_still still]
    apply sample_of_absolute (get?_after_opening opens)
    · rwa [Reservation.accepts_of_still still]
    · rwa [Reservation.incremental_of_still still]
  · intro counter incremental own
    have accepted : r.accepts s := by simp [Reservation.accepts, counter, own]
    refine ⟨_, rfl, ?_⟩
    rw [← Reservation.absolute_foldl_heed incremental accepted]
    refine ⟨?_, get?_sample_after opens accepted incremental x⟩
    rw [fst_sample_after opens, if_pos accepted]
  · intro ps' later' opens' same
    exact fst_sample_congr opens opens' same s x

def rolling : Reservation :=
  { isCounter := true, unit := 3, incremental := true, sequence := 7, total := 5 }

def wrapping : List Posting :=
  [.sample 3 7 9, .reserve 3 rolling, .sample 3 7 4611686018427387904,
    .reserve 3 { isCounter := true, unit := 100 }, .clear 8, .reserve 4 rolling, .sample 4 7 1,
    .sample 3 8 50]

theorem counters_read_wrapping :
    (empty.after wrapping).sample 5 7 1 = (none, empty.after wrapping) ∧
      ((empty.after wrapping).sample 3 7 4611686018427387904).1 = some (-9223372036854775803) ∧
      ((empty.after [.reserve 3 rolling, .sample 3 7 4611686018427387904,
        .sample 3 8 50]).sample 3 7 4611686018427387904).1 = some (-9223372036854775803) := by
  obtain ⟨-, reads⟩ := counters_read wrapping 3 7 4611686018427387904
  obtain ⟨-, -, -, running, alike⟩ := reads rolling _ rfl
  obtain ⟨total, sum, reply, -⟩ := running rfl rfl rfl
  have read : ((empty.after wrapping).sample 3 7 4611686018427387904).1 =
      some (-9223372036854775803) := by
    rw [reply, sum]
    decide +kernel
  exact ⟨(counters_read wrapping 5 7 1).1 rfl, read, (alike _ _ rfl (by decide +kernel)).trans read⟩

end Reservations
end TraceTracks
