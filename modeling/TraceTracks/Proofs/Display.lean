import TraceTracks.Store.Snapshot
import TraceTracks.Proofs.Bookkeeping
import TraceTracks.Proofs.Interning

/-! The document that is shown of a store, beside what the store answers. The document keeps the
last of several arguments with one text, an answer is the first; the two agree where keys are known
and none comes twice. -/
namespace TraceTracks

section Lists
variable {κ α β : Type} [DecidableEq κ]

end Lists

namespace Json

end Json

namespace Store
variable {s : Store} {row : Track}

section Answers

structure Plain (s : Store) (id : TrackId) : Prop where
  known : ∀ arg ∈ s.args.ofTrack id, (s.string? arg.key).isSome
  distinct : ((s.args.ofTrack id).map Arg.key).Nodup

end Answers

section Pool

theorem strings_write (s : Store) (w : Writing) : (s.write w).2.strings = s.strings ∨
    ∃ text, (s.write w).2.strings = (s.strings.intern text).2 := by
  cases w with
  | intern text => exact .inr ⟨text, rfl⟩
  | setName track name =>
    simp only [write, setName, Tracks.setName]
    by_cases known : track.index < s.tracks.rows.size
    · simp only [if_pos known, true_or]
    · simp only [if_neg known, true_or]
  | addArg track key value =>
    simp only [write, addArg]
    cases s.track? track <;> exact .inl rfl
  | createTrack => exact .inl rfl
  | threadTrack => exact .inl rfl
  | processTrack => exact .inl rfl
  | count => exact .inl rfl

theorem strings_after {motive : Strings → Prop} (ws : List Writing) (start : motive s.strings)
    (intern : ∀ strings text, motive strings → motive (strings.intern text).2) :
    motive (s.after ws).strings := by
  induction ws generalizing s with
  | nil => exact start
  | cons w ws ih =>
    refine ih ?_
    rcases s.strings_write w with same | ⟨text, entered⟩
    · rwa [same]
    · rw [entered]
      exact intern _ text start

theorem inStep_after (ws : List Writing) : (empty.after ws).strings.InStep :=
  strings_after ws Strings.inStep_empty fun _ text pool => pool.intern text

theorem size_strings_le_after (s : Store) (ws : List Writing) :
    s.strings.size ≤ (s.after ws).strings.size :=
  strings_after ws (Nat.le_refl _) fun strings text le =>
    Nat.le_trans le (strings.size_le_intern text)

end Pool

end Store
end TraceTracks
