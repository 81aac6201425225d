/-! Pitches as semitone indices on a chromatic keyboard, and the distances between them. -/

namespace Melody

/-- A semitone index on a keyboard whose lowest named C is zero. -/
structure Pitch where
  index : Int
deriving DecidableEq, Repr, Inhabited

/-- A signed distance between two pitches. -/
structure Interval where
  semitones : Int
deriving DecidableEq, Repr

namespace Pitch

/-- Concert A. -/
def a4 : Pitch := ⟨57⟩

/-- The octave that holds a pitch. -/
def octave (p : Pitch) : Int :=
  p.index / 12

/-- The pitch an interval above. -/
def raise (p : Pitch) (i : Interval) : Pitch :=
  ⟨p.index + i.semitones⟩

/-- The pitch an interval below. -/
def lower (p : Pitch) (i : Interval) : Pitch :=
  ⟨p.index - i.semitones⟩

/-- The interval from a second pitch up to the first. -/
def above (p q : Pitch) : Interval :=
  ⟨p.index - q.index⟩

instance : HAdd Pitch Interval Pitch := ⟨raise⟩

instance : HSub Pitch Interval Pitch := ⟨lower⟩

instance : HSub Pitch Pitch Interval := ⟨above⟩

instance : LT Pitch := ⟨fun p q => p.index < q.index⟩

instance (p q : Pitch) : Decidable (p < q) :=
  inferInstanceAs (Decidable (p.index < q.index))

/-- Raising a pitch by its distance from another reaches it from there. -/
theorem add_sub_cancel (p q : Pitch) : q + (p - q) = p := by
  -- Both sides have the same index.
  show Pitch.mk (q.index + (p.index - q.index)) = p
  have index : q.index + (p.index - q.index) = p.index := by omega
  rw [index]

end Pitch

namespace Interval

/-- One interval after another. -/
def join (i j : Interval) : Interval :=
  ⟨i.semitones + j.semitones⟩

/-- The same distance in the other direction. -/
def inverse (i : Interval) : Interval :=
  ⟨-i.semitones⟩

instance : Add Interval := ⟨join⟩

instance : Neg Interval := ⟨inverse⟩

end Interval

end Melody
