import Mathlib.Data.Finset.Card
import Mathlib.Data.Finset.Dedup
import TraceTracks.Proofs.Counters

/-! What becomes of announcements. The first one of a uuid stands; later ones are merged into it or
refused, and what is merged is the earliest time. Announcements of different uuids have nothing to
do with each other, and later ones of one uuid may come in any order. -/
namespace TraceTracks

namespace Posting
variable {u : Uuid} {ps : List Posting} {r : Reservation} {later : List Posting}

def uuid? : Posting → Option Uuid
  | reserve v _ => some v
  | _ => none

theorem announced?_eq_none_iff (u : Uuid) (p : Posting) :
    p.announced? u = none ↔ p.uuid? ≠ some u := by
  cases p <;> simp [announced?, uuid?]

theorem opening?_eq_none_iff (u : Uuid) (ps : List Posting) :
    opening? u ps = none ↔ u ∉ ps.filterMap uuid? := by
  induction ps with
  | nil => simp [opening?]
  | cons p ps ih =>
    unfold opening?
    cases announced : p.announced? u with
    | none =>
      have other := (announced?_eq_none_iff u p).mp announced
      simp only [ih, List.mem_filterMap, List.mem_cons, exists_eq_or_imp, other, false_or]
    | some r =>
      have same : p.uuid? = some u := by
        by_contra other
        rw [(announced?_eq_none_iff u p).mpr other] at announced
        cases announced
      simp [same]

theorem announcements_of_opening? (opens : opening? u ps = some (r, later)) :
    ps.filterMap (announced? u) = r :: later.filterMap (announced? u) := by
  induction ps with
  | nil => cases opens
  | cons p ps ih =>
    unfold opening? at opens
    cases announced : p.announced? u with
    | none =>
      rw [announced] at opens
      rw [List.filterMap_cons_none announced, ih opens]
    | some first =>
      rw [announced] at opens
      cases opens
      rw [List.filterMap_cons_some announced]

theorem subset_of_opening? (opens : opening? u ps = some (r, later)) : later ⊆ ps := by
  induction ps with
  | nil => cases opens
  | cons p ps ih =>
    unfold opening? at opens
    cases announced : p.announced? u with
    | none =>
      rw [announced] at opens
      exact List.Subset.trans (ih opens) (List.subset_cons_self p ps)
    | some first =>
      rw [announced] at opens
      cases opens
      exact List.subset_cons_self p later

def ofCalls (calls : List (Uuid × Reservation)) : List Posting :=
  calls.map fun call => reserve call.1 call.2

theorem fst_opening?_ofCalls (u : Uuid) (calls : List (Uuid × Reservation)) :
    (opening? u (ofCalls calls)).map Prod.fst = calls.lookup u := by
  induction calls with
  | nil => rfl
  | cons call calls ih =>
    rw [ofCalls, List.map_cons, List.lookup_cons, opening?, announced?]
    by_cases same : call.1 = u
    · simp [same]
    · have other : (u == call.1) = false := beq_eq_false_iff_ne.mpr (Ne.symm same)
      rw [if_neg same, other]
      exact ih

end Posting

namespace Reservation
variable {r r' : Reservation} {u : Uuid}

/-- The time that an announcement brings to an earlier one of the same shape. -/
def mergedTime? (first r : Reservation) : Option Timestamp :=
  if first.toShape = r.toShape then r.firstSeen else none

def mergedTimes (u : Uuid) (first : Reservation) (ps : List Posting) : List Timestamp :=
  (ps.filterMap (Posting.announced? u)).filterMap first.mergedTime?

theorem mergedTimes_cons (u : Uuid) (first : Reservation) (p : Posting) (ps : List Posting) :
    first.mergedTimes u (p :: ps) = first.mergedTimes u [p] ++ first.mergedTimes u ps := by
  rw [mergedTimes, mergedTimes, mergedTimes, ← List.filterMap_append, ← List.filterMap_append,
    List.singleton_append]

theorem mergedTimes_of_still (h : r'.still = r.still) : r'.mergedTimes u = r.mergedTimes u :=
  congr_of_still (mergedTimes u) h fun _ => rfl

theorem firstSeen_merge (r other : Reservation) : (r.merge other).firstSeen =
    r.firstSeen.map fun t => other.firstSeen.toList.foldl min t := by
  unfold merge
  cases first : r.firstSeen with
  | none => simp [first]
  | some t => cases second : other.firstSeen <;> simp [first]

theorem firstSeen_heed (u : Uuid) (r : Reservation) (p : Posting) : (r.heed u p).firstSeen =
    r.firstSeen.map fun t => (r.mergedTimes u [p]).foldl min t := by
  cases p with
  | reserve v other =>
    by_cases same : v = u
    · by_cases shape : r.toShape = other.toShape
      · have alike : r.sameTrack other := beq_iff_eq.mpr shape
        rw [heed, if_pos ⟨same, alike⟩, firstSeen_merge]
        cases seen : other.firstSeen <;>
          simp [mergedTimes, Posting.announced?, mergedTime?, same, shape, seen]
      · have unlike : ¬r.sameTrack other := fun alike => shape (beq_iff_eq.mp alike)
        simp [heed, mergedTimes, Posting.announced?, mergedTime?, same, shape, unlike]
    · simp [heed, mergedTimes, Posting.announced?, same]
  | sample v s x =>
    have none : r.mergedTimes u [.sample v s x] = [] := rfl
    simp only [heed, none]
    split <;> simp
  | clear s =>
    have none : r.mergedTimes u [.clear s] = [] := rfl
    simp only [heed, none]
    split <;> simp

theorem firstSeen_foldl_heed (u : Uuid) (r : Reservation) (ps : List Posting) :
    (ps.foldl (heed u) r).firstSeen =
      r.firstSeen.map fun t => (r.mergedTimes u ps).foldl min t := by
  induction ps generalizing r with
  | nil => simp [mergedTimes]
  | cons p ps ih =>
    rw [List.foldl_cons, ih, mergedTimes_of_still (still_heed u r p), firstSeen_heed,
      Option.map_map, mergedTimes_cons u r p ps]
    simp only [Function.comp_def, List.foldl_append]

theorem eq_of_still (h : r'.still = r.still) (firstSeen : r'.firstSeen = r.firstSeen)
    (total : r'.total = r.total) : r' = r := by
  cases r
  cases r'
  simp_all [still]

theorem total_foldl_heed_of_uuid? {ps : List Posting} (announced : ∀ p ∈ ps, p.uuid?.isSome)
    (u : Uuid) (r : Reservation) : (ps.foldl (heed u) r).total = r.total := by
  have none : ps.filter (Posting.bears u r) = [] := by
    refine List.filter_eq_nil_iff.mpr fun p mem => ?_
    have uuid := announced p mem
    cases p with
    | reserve v other => exact Bool.false_ne_true
    | sample v s x => cases uuid
    | clear s => cases uuid
  rw [total_foldl_heed, ← foldl_advance_filter, none, List.foldl_nil]

end Reservation

namespace Reservations
variable {rs : Reservations} {u : Uuid} {r : Reservation} {ps later : List Posting}

/-- What became of each announcement. -/
def outcomes (rs : Reservations) : List Posting → List Outcome
  | [] => []
  | .reserve u r :: ps => (rs.reserve u r).1 :: outcomes (rs.reserve u r).2 ps
  | p :: ps => outcomes (rs.post p) ps

theorem outcomes_append (rs : Reservations) (ps more : List Posting) :
    rs.outcomes (ps ++ more) = rs.outcomes ps ++ (rs.after ps).outcomes more := by
  induction ps generalizing rs with
  | nil => rfl
  | cons p ps ih =>
    have rest := ih (rs.post p)
    cases p with
    | reserve u r => exact congrArg ((rs.reserve u r).1 :: ·) rest
    | sample u s x => exact rest
    | clear s => exact rest

theorem fst_reserve (rs : Reservations) (u : Uuid) (r : Reservation) : (rs.reserve u r).1 =
    match rs.get? u with
    | none => .inserted
    | some old => if old.toShape = r.toShape then .merged else .conflict := by
  unfold reserve
  cases rs.get? u with
  | none => rfl
  | some old => by_cases same : old.toShape = r.toShape <;> simp [Reservation.sameTrack, same]

theorem fst_reserve_after (ps : List Posting) (u : Uuid) (r : Reservation) :
    ((empty.after ps).reserve u r).1 =
      match Posting.opening? u ps with
      | none => .inserted
      | some (first, _) => if first.toShape = r.toShape then .merged else .conflict := by
  rw [fst_reserve, get?_after]
  cases opens : Posting.opening? u ps with
  | none => rfl
  | some o =>
    have shape := Reservation.toShape_of_still (Reservation.still_foldl_heed u o.1 o.2)
    simp only [Option.map_some, shape]

theorem stored_after (ps : List Posting) (u : Uuid) : ∃ total, (empty.after ps).get? u =
    (Posting.opening? u ps).map fun (first, later) =>
      { first with
        firstSeen := first.firstSeen.bind fun t => (t :: first.mergedTimes u later).min?
        total := total } := by
  cases opens : Posting.opening? u ps with
  | none => exact ⟨0, by rw [get?_after, opens]; rfl⟩
  | some o =>
    obtain ⟨r, later⟩ := o
    refine ⟨(later.foldl (Reservation.heed u) r).total, ?_⟩
    rw [get?_after_opening opens]
    refine congrArg some (Reservation.eq_of_still ?_ ?_ rfl)
    · exact Reservation.still_foldl_heed u r later
    · rw [Reservation.firstSeen_foldl_heed]
      dsimp only
      cases r.firstSeen <;> rfl

theorem size_after (ps : List Posting) :
    (empty.after ps).size = (ps.filterMap Posting.uuid?).toFinset.card := by
  have keys : (empty.after ps).byUuid.keys.toFinset = (ps.filterMap Posting.uuid?).toFinset := by
    ext u
    have known : (empty.after ps).get? u = none ↔ u ∉ (empty.after ps).byUuid.keys :=
      Registry.get?_eq_none_iff
    have announced := Posting.opening?_eq_none_iff u ps
    rw [get?_after, Option.map_eq_none_iff, announced, not_iff_not] at known
    rw [List.mem_toFinset, List.mem_toFinset, known]
  rw [← keys, List.toFinset_card_of_nodup (Registry.keys_nodup _), Registry.keys, List.length_map]
  rfl

theorem total_after_ofCalls {calls : List (Uuid × Reservation)}
    (opens : Posting.opening? u (Posting.ofCalls calls) = some (r, later)) :
    (later.foldl (Reservation.heed u) r).total = r.total := by
  refine Reservation.total_foldl_heed_of_uuid? (fun p mem => ?_) u r
  obtain ⟨call, -, rfl⟩ := List.mem_map.mp (Posting.subset_of_opening? opens mem)
  rfl

/-- Announcements may be made in any order that leaves each uuid its first one. -/
theorem get?_after_ofCalls_congr {calls calls' : List (Uuid × Reservation)}
    (perm : calls'.Perm calls) (first : calls'.lookup u = calls.lookup u) :
    (empty.after (Posting.ofCalls calls')).get? u =
      (empty.after (Posting.ofCalls calls)).get? u := by
  rw [← Posting.fst_opening?_ofCalls, ← Posting.fst_opening?_ofCalls] at first
  have announced : ((Posting.ofCalls calls').filterMap (Posting.announced? u)).Perm
      ((Posting.ofCalls calls).filterMap (Posting.announced? u)) :=
    (perm.map _).filterMap _
  cases opens : Posting.opening? u (Posting.ofCalls calls) with
  | none =>
    rw [opens, Option.map_none, Option.map_eq_none_iff] at first
    rw [get?_after, get?_after, opens, first]
  | some o =>
    obtain ⟨r, later⟩ := o
    rw [opens, Option.map_some, Option.map_eq_some_iff] at first
    obtain ⟨⟨r, later'⟩, opens', rfl⟩ := first
    rw [Posting.announcements_of_opening? opens, Posting.announcements_of_opening? opens']
      at announced
    have times := announced.cons_inv.filterMap (Reservation.mergedTime? r)
    rw [get?_after_opening opens, get?_after_opening opens']
    refine congrArg some (Reservation.eq_of_still ?_ ?_ ?_)
    · rw [Reservation.still_foldl_heed, Reservation.still_foldl_heed]
    · rw [Reservation.firstSeen_foldl_heed, Reservation.firstSeen_foldl_heed]
      congr 1
      funext t
      exact times.foldl_eq t
    · rw [total_after_ofCalls opens, total_after_ofCalls opens']

theorem size_after_ofCalls_congr {calls calls' : List (Uuid × Reservation)}
    (perm : calls'.Perm calls) :
    (empty.after (Posting.ofCalls calls')).size = (empty.after (Posting.ofCalls calls)).size := by
  have uuids := (perm.map fun call => Posting.reserve call.1 call.2).filterMap Posting.uuid?
  rw [size_after, size_after, Posting.ofCalls, Posting.ofCalls, List.toFinset_eq_of_perm _ _ uuids]

end Reservations
end TraceTracks
