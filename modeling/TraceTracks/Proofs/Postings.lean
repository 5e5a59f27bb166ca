import TraceTracks.Reservation.Ledger

/-! What a series of announcements, samples and resets does to the reservations, one uuid at a time.
A uuid heeds what is posted to it and the resets of sequences, from its first announcement on. -/
namespace TraceTracks

inductive Posting
  | reserve (uuid : Uuid) (r : Reservation)
  | sample (uuid : Uuid) (sequence : Sequence) (value : Int64)
  | clear (sequence : Sequence)
  deriving DecidableEq

namespace Posting

def announced? (u : Uuid) : Posting → Option Reservation
  | reserve v r => if v = u then some r else none
  | _ => none

/-- The first announcement of a uuid, and what is posted after it. -/
def opening? (u : Uuid) : List Posting → Option (Reservation × List Posting)
  | [] => none
  | p :: ps =>
    match p.announced? u with
    | some r => some (r, ps)
    | none => opening? u ps

end Posting

namespace Reservation

def heed (u : Uuid) (r : Reservation) : Posting → Reservation
  | .reserve v other => if v = u ∧ r.sameTrack other then r.merge other else r
  | .sample v s x =>
    if v = u ∧ r.accepts s ∧ r.incremental then { r with total := r.absolute x } else r
  | .clear s => if r.incremental ∧ r.sequence = s then { r with total := 0 } else r

theorem still_heed (u : Uuid) (r : Reservation) (p : Posting) : (r.heed u p).still = r.still := by
  cases p with
  | reserve v other =>
    simp only [heed]
    split
    · exact still_merge r other
    · rfl
  | sample v s x => simp only [heed]; split <;> rfl
  | clear s => simp only [heed]; split <;> rfl

theorem still_foldl_heed (u : Uuid) (r : Reservation) (ps : List Posting) :
    (ps.foldl (heed u) r).still = r.still := by
  induction ps generalizing r with
  | nil => rfl
  | cons p ps ih => rw [List.foldl_cons, ih, still_heed]

end Reservation

namespace Reservations
variable {rs : Reservations} {u : Uuid} {ps : List Posting} {r : Reservation}

def post (rs : Reservations) : Posting → Reservations
  | .reserve v r => (rs.reserve v r).2
  | .sample v s x => (rs.sample v s x).2
  | .clear s => rs.clear s

def after (rs : Reservations) (ps : List Posting) : Reservations := ps.foldl post rs

@[simp] theorem get?_empty (u : Uuid) : empty.get? u = none := rfl

theorem get?_post_of_none (h : rs.get? u = none) (p : Posting) :
    (rs.post p).get? u = p.announced? u := by
  cases p with
  | reserve v r =>
    simp only [post, get?_reserve, Posting.announced?]
    by_cases same : v = u
    · simp [same, h]
    · simp [same, Ne.symm same, h]
  | sample v s x =>
    simp only [post, get?_sample, Posting.announced?]
    by_cases same : u = v
    · simp [← same, h]
    · simp [same, h]
  | clear s => simp [post, get?_clear, Posting.announced?, h]

theorem get?_post_of_some (h : rs.get? u = some r) (p : Posting) :
    (rs.post p).get? u = some (r.heed u p) := by
  cases p with
  | reserve v other =>
    simp only [post, get?_reserve, Reservation.heed]
    by_cases same : v = u
    · simp [same, h]
    · simp [same, Ne.symm same, h]
  | sample v s x =>
    simp only [post, get?_sample, Reservation.heed]
    by_cases same : v = u
    · simp [same, h]
    · simp [same, Ne.symm same, h]
  | clear s => simp [post, get?_clear, Reservation.heed, h]

theorem get?_after_of_some (h : rs.get? u = some r) (ps : List Posting) :
    (rs.after ps).get? u = some (ps.foldl (Reservation.heed u) r) := by
  induction ps generalizing rs r with
  | nil => exact h
  | cons p ps ih => exact ih (get?_post_of_some h p)

theorem get?_after_of_none (h : rs.get? u = none) (ps : List Posting) :
    (rs.after ps).get? u = (Posting.opening? u ps).map fun o =>
      o.2.foldl (Reservation.heed u) o.1 := by
  induction ps generalizing rs with
  | nil => exact h
  | cons p ps ih =>
    have posted := get?_post_of_none h p
    unfold Posting.opening?
    cases announced : p.announced? u with
    | none => exact ih (posted.trans announced)
    | some r => exact get?_after_of_some (posted.trans announced) ps

/-- A uuid is what its first announcement and the postings after it make of it. -/
theorem get?_after (u : Uuid) (ps : List Posting) :
    (empty.after ps).get? u = (Posting.opening? u ps).map fun o =>
      o.2.foldl (Reservation.heed u) o.1 :=
  get?_after_of_none (get?_empty u) ps

end Reservations
end TraceTracks
