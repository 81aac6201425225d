import Mathlib
import Melody.Envelope.Basic
import Melody.Proofs.Outcome
import Melody.Proofs.Scalar.Real

/-! Segments make an envelope exactly when they keep out of each other, and then all of them are in
it, in order, with a straight link across every gap. -/

namespace Melody

variable {α : Type} [ExactScalar α]

namespace Point

/-- On exact numbers only points left of zero are refused. -/
theorem check_eq_ok {p : Point α} : p.check = .ok () ↔ 0 ≤ p.x := by
  simp [check, ExactScalar.finite]

/-- On exact numbers points are the same when they are equal. -/
theorem same_iff {p q : Point α} : p.same q = true ↔ p = q := by
  obtain ⟨x, y⟩ := p
  obtain ⟨z, w⟩ := q
  simp only [same, Scalar.same, Bool.and_eq_true, decide_eq_true_eq, mk.injEq]
  exact and_congr le_antisymm_iff.symm le_antisymm_iff.symm

end Point

namespace Segment

/-- The points of a segment are valid and in order, and its shape fits them. -/
structure Valid (s : Segment α) : Prop where
  start : 0 ≤ s.start.x
  forward : s.start.x ≤ s.finish.x
  shape : checkShape s.start s.finish s.shape = .ok ()

/-- A segment is made of given points and a shape exactly when it is valid. -/
theorem make_eq_ok_iff {start finish : Point α} {shape : Shape α} {s : Segment α} :
    make start finish shape = .ok s ↔ s = ⟨start, finish, shape⟩ ∧ s.Valid := by
  simp only [make, bind_eq_ok]
  -- The four checks are made in order, each of them for one part of validity.
  constructor
  · rintro ⟨_, begins, _, _, passed⟩
    split at passed
    · cases passed
    · rename_i forward
      obtain ⟨_, fits, ⟨⟩⟩ := bind_eq_ok.mp passed
      exact ⟨rfl, Point.check_eq_ok.mp begins, not_lt.mp forward, fits⟩
  · rintro ⟨rfl, begins, forward, fits⟩
    refine ⟨(), Point.check_eq_ok.mpr begins, (), Point.check_eq_ok.mpr (begins.trans forward), ?_⟩
    rw [if_neg (not_lt.mpr forward)]
    exact bind_eq_ok.mpr ⟨(), fits, rfl⟩

/-- A straight line between points in order is valid. -/
theorem valid_linear {start finish : Point α} (begins : 0 ≤ start.x)
    (forward : start.x ≤ finish.x) : (⟨start, finish, .linear⟩ : Segment α).Valid :=
  ⟨begins, forward, rfl⟩

/-- One of two segments ends before the other one starts, or where it starts. -/
def Apart (first second : Segment α) : Prop :=
  first.finish.x ≤ second.start.x ∨ second.finish.x ≤ first.start.x

/-- It does not matter which of two segments is named first. -/
theorem Apart.symm {first second : Segment α} (apart : first.Apart second) :
    second.Apart first :=
  Or.symm apart

/-- A segment starts before another one, or where that starts and ends no later. -/
def Precedes (first second : Segment α) : Prop :=
  first.start.x < second.start.x ∨
    first.start.x = second.start.x ∧ first.finish.x ≤ second.finish.x

end Segment

namespace Envelope

open Segment

section Linking

/-- The segments that follow a point, with straight links from points that do not meet. -/
def linksFrom (previous : Point α) : List (Segment α) → List (Segment α)
  | [] => []
  | next :: later =>
    if next.start = previous then next :: linksFrom next.finish later
    else ⟨previous, next.start, .linear⟩ :: next :: linksFrom next.finish later

/-- Segments with straight links between those neighbours that do not meet. -/
def withLinks : List (Segment α) → List (Segment α)
  | [] => []
  | first :: later => first :: linksFrom first.finish later

/-- Segments stay some when they are linked. -/
theorem withLinks_ne_nil {segments : List (Segment α)} (some : segments ≠ []) :
    withLinks segments ≠ [] := by
  cases segments with
  | nil => exact absurd rfl some
  | cons first later => exact List.cons_ne_nil _ _

variable {previous : Point α} {segments : List (Segment α)}

/-- A segment behind a point is linked to it, and a link between valid points never fails. -/
theorem link_cons (begins : 0 ≤ previous.x) (next : Segment α) (later : List (Segment α)) :
    link previous (next :: later) =
      if next.start.x < previous.x then .error (.intersecting next.start.x previous.x)
      else (link next.finish later).map fun rest =>
        if next.start = previous then next :: rest
        else ⟨previous, next.start, .linear⟩ :: next :: rest := by
  rw [link]
  by_cases early : next.start.x < previous.x
  · rw [if_pos early, if_pos early]
    rfl
  · rw [if_neg early, if_neg early]
    by_cases meets : next.start = previous
    · rw [if_pos (Point.same_iff.mpr meets)]
      simp only [if_pos meets]
      cases link next.finish later <;> rfl
    · -- The link runs forward from a valid point.
      have made := make_eq_ok_iff.mpr ⟨rfl, valid_linear begins (not_lt.mp early)⟩
      rw [if_neg (fun same => meets (Point.same_iff.mp same)), made]
      simp only [if_neg meets]
      cases link next.finish later <;> rfl

/-- Segments that follow each other are linked without a failure. -/
theorem link_eq_ok (begins : 0 ≤ previous.x) (valid : ∀ s ∈ segments, s.Valid)
    (behind : ∀ s ∈ segments, previous.x ≤ s.start.x)
    (row : segments.Pairwise fun first second => first.finish.x ≤ second.start.x) :
    link previous segments = .ok (linksFrom previous segments) := by
  -- Each segment is linked to the end of the one before, so the induction moves the point.
  induction segments generalizing previous with
  | nil => rfl
  | cons next later ih =>
    obtain ⟨fits, others⟩ := List.forall_mem_cons.mp valid
    obtain ⟨after, _⟩ := List.forall_mem_cons.mp behind
    obtain ⟨first, rest⟩ := List.pairwise_cons.mp row
    have linked := ih (fits.start.trans fits.forward) others first rest
    rw [link_cons begins, if_neg (not_lt.mpr after), linked]
    rfl

/-- Linking fails only where a segment starts before the end of another one. -/
theorem link_eq_error (begins : 0 ≤ previous.x) (valid : ∀ s ∈ segments, s.Valid)
    {error : CurveError α} (failed : link previous segments = .error error) :
    ∃ last second, (last = previous ∨ ∃ first ∈ segments, first.finish = last) ∧
      second ∈ segments ∧ second.start.x < last.x ∧
      error = .intersecting second.start.x last.x := by
  induction segments generalizing previous with
  | nil => cases failed
  | cons next later ih =>
    obtain ⟨fits, others⟩ := List.forall_mem_cons.mp valid
    rw [link_cons begins] at failed
    -- Either the next segment starts too early, or the failure comes behind it.
    by_cases early : next.start.x < previous.x
    · rw [if_pos early] at failed
      cases failed
      exact ⟨previous, next, Or.inl rfl, List.mem_cons_self .., early, rfl⟩
    · rw [if_neg early] at failed
      cases linked : link next.finish later with
      | ok rest =>
        rw [linked] at failed
        cases failed
      | error cause =>
        rw [linked] at failed
        cases failed
        obtain ⟨last, second, ends, member, before, same⟩ :=
          ih (fits.start.trans fits.forward) others linked
        refine ⟨last, second, Or.inr ?_, List.mem_cons_of_mem _ member, before, same⟩
        rcases ends with rfl | ⟨first, present, rfl⟩
        · exact ⟨next, List.mem_cons_self .., rfl⟩
        · exact ⟨first, List.mem_cons_of_mem _ present, rfl⟩

/-- Segments that have been linked follow each other. -/
theorem row_of_link {result : List (Segment α)} (begins : 0 ≤ previous.x)
    (valid : ∀ s ∈ segments, s.Valid) (linked : link previous segments = .ok result) :
    (∀ s ∈ segments, previous.x ≤ s.start.x) ∧
      segments.Pairwise fun first second => first.finish.x ≤ second.start.x := by
  induction segments generalizing previous result with
  | nil => exact ⟨List.forall_mem_nil _, .nil⟩
  | cons next later ih =>
    obtain ⟨fits, others⟩ := List.forall_mem_cons.mp valid
    rw [link_cons begins] at linked
    -- Linking fails at the first segment that begins before the end of the one before it.
    by_cases early : next.start.x < previous.x
    · rw [if_pos early] at linked
      cases linked
    · rw [if_neg early] at linked
      obtain ⟨rest, further, _⟩ := map_eq_ok.mp linked
      obtain ⟨behind, row⟩ := ih (fits.start.trans fits.forward) others further
      have after : previous.x ≤ next.start.x := not_lt.mp early
      refine ⟨List.forall_mem_cons.mpr ⟨after, fun s member => ?_⟩,
        List.pairwise_cons.mpr ⟨behind, row⟩⟩
      exact (after.trans fits.forward).trans (behind s member)

end Linking

section Sorting

variable {first second : Segment α} {segments : List (Segment α)}

/-- Segments are in order by where they start and then by where they end. -/
theorem inOrder_iff : inOrder first second = true ↔ first.Precedes second := by
  rw [inOrder, ExactScalar.order_eq, ExactScalar.order_eq, Precedes]
  -- The ends are compared only if the starts are equal.
  rcases lt_trichotomy first.start.x second.start.x with before | same | after
  · rw [compare_lt_iff_lt.mpr before]
    simp [before]
  · rw [compare_eq_iff_eq.mpr same]
    simp [same, compare_le_iff_le]
  · rw [compare_gt_iff_gt.mpr after]
    simp [after.ne', after.not_gt]

/-- The order of segments is that of their coordinates, one after the other. -/
theorem inOrder_iff_lex : inOrder first second = true ↔
    toLex (first.start.x, first.finish.x) ≤ toLex (second.start.x, second.finish.x) := by
  rw [inOrder_iff, Precedes, Prod.Lex.toLex_le_toLex]

/-- Segments are in order across one between them. -/
theorem inOrder_trans (first second third : Segment α) (one : inOrder first second = true)
    (other : inOrder second third = true) : inOrder first third = true :=
  inOrder_iff_lex.mpr ((inOrder_iff_lex.mp one).trans (inOrder_iff_lex.mp other))

/-- Of two segments one is in order before the other. -/
theorem inOrder_total (first second : Segment α) :
    (inOrder first second || inOrder second first) = true := by
  rw [Bool.or_eq_true, inOrder_iff_lex, inOrder_iff_lex]
  exact le_total _ _

/-- Sorted segments are in order. -/
theorem sort_inOrder (segments : List (Segment α)) :
    (segments.mergeSort inOrder).Pairwise Precedes :=
  (List.pairwise_mergeSort inOrder_trans inOrder_total segments).imp inOrder_iff.mp

/-- Segments that follow each other in order do so when all are sorted. -/
theorem sublist_sort {row : List (Segment α)} (part : row.Sublist segments)
    (ordered : row.Pairwise Precedes) : row.Sublist (segments.mergeSort inOrder) :=
  List.sublist_mergeSort inOrder_trans inOrder_total (ordered.imp inOrder_iff.mpr) part

/-- Of two segments in order that keep out of each other the second starts behind the first. -/
theorem before_of_apart (valid : second.Valid) (ordered : first.Precedes second)
    (apart : first.Apart second) : first.finish.x ≤ second.start.x := by
  rcases apart with before | after
  · exact before
  · -- A second segment that ends before the first starts does so in its place, as a jump.
    rcases ordered with starts | ⟨starts, ends⟩
    · exact absurd (valid.forward.trans after) (not_le.mpr starts)
    · exact ends.trans (after.trans starts.le)

/-- Sorted segments follow each other exactly when any two of them keep out of each other. -/
theorem row_sort_iff (valid : ∀ s ∈ segments, s.Valid) :
    ((segments.mergeSort inOrder).Pairwise fun first second =>
      first.finish.x ≤ second.start.x) ↔ segments.Pairwise Apart := by
  -- Both orders of a pair lie apart, so that sorting does not matter to the right side.
  have perm := List.mergeSort_perm segments inOrder
  rw [← perm.pairwise_iff Apart.symm]
  constructor
  · exact fun row => row.imp Or.inl
  · intro apart
    refine ((sort_inOrder segments).and apart).imp_of_mem fun _ member ⟨ordered, apart⟩ => ?_
    exact before_of_apart (valid _ (perm.mem_iff.mp member)) ordered apart

end Sorting

section Whole

variable {segments : List (Segment α)}

/-- Segments make an envelope if there are any and they keep out of each other, and it has all of
them in order with their links. -/
theorem ofSegments_eq_ok_iff (valid : ∀ s ∈ segments, s.Valid) {envelope : Envelope α} :
    ofSegments segments = .ok envelope ↔ segments ≠ [] ∧ segments.Pairwise Apart ∧
      envelope.segments = withLinks (segments.mergeSort inOrder) := by
  have perm := List.mergeSort_perm segments inOrder
  rw [← row_sort_iff valid, ofSegments]
  replace valid : ∀ s ∈ segments.mergeSort inOrder, s.Valid :=
    fun s member => valid s (perm.mem_iff.mp member)
  cases sorted : segments.mergeSort inOrder with
  | nil =>
    have none : segments = [] := by
      rw [sorted] at perm
      exact perm.symm.eq_nil
    simp [none]
  | cons first later =>
    have some : segments ≠ [] := fun none => by simp [none] at sorted
    rw [sorted] at valid
    obtain ⟨fits, others⟩ := List.forall_mem_cons.mp valid
    have begins := fits.start.trans fits.forward
    rw [List.pairwise_cons]
    constructor
    · -- What has been linked was in a row, and linking a row gives nothing else.
      intro made
      obtain ⟨linked, row, same⟩ := bind_eq_ok.mp made
      cases same
      obtain ⟨behind, rest⟩ := row_of_link begins others row
      rw [link_eq_ok begins others behind rest] at row
      cases row
      exact ⟨some, ⟨behind, rest⟩, rfl⟩
    · rintro ⟨_, ⟨behind, rest⟩, same⟩
      obtain ⟨segments, nonempty⟩ := envelope
      subst same
      exact bind_eq_ok.mpr ⟨_, link_eq_ok begins others behind rest, rfl⟩

/-- Segments make no envelope only if there are none or two of them reach into each other. -/
theorem ofSegments_eq_error (valid : ∀ s ∈ segments, s.Valid) {error : CurveError α}
    (failed : ofSegments segments = .error error) :
    segments = [] ∧ error = .empty ∨ ∃ first ∈ segments, ∃ second ∈ segments,
      second.start.x < first.finish.x ∧
        error = .intersecting second.start.x first.finish.x := by
  have perm := List.mergeSort_perm segments inOrder
  rw [ofSegments] at failed
  -- Only an empty list and an intersection can fail, for the segments themselves are valid.
  cases sorted : segments.mergeSort inOrder with
  | nil =>
    rw [sorted] at failed perm
    cases failed
    exact Or.inl ⟨perm.symm.eq_nil, rfl⟩
  | cons first later =>
    rw [sorted] at failed perm
    have all : ∀ s ∈ first :: later, s.Valid := fun s member => valid s (perm.mem_iff.mp member)
    obtain ⟨fits, others⟩ := List.forall_mem_cons.mp all
    rcases bind_eq_error.mp failed with linked | ⟨_, _, done⟩
    · obtain ⟨last, second, ends, member, before, same⟩ :=
        link_eq_error (fits.start.trans fits.forward) others linked
      have behind := perm.mem_iff.mp (List.mem_cons_of_mem first member)
      rcases ends with rfl | ⟨earlier, present, rfl⟩
      · exact Or.inr ⟨first, perm.mem_iff.mp (List.mem_cons_self ..), second, behind, before, same⟩
      · exact Or.inr ⟨earlier, perm.mem_iff.mp (List.mem_cons_of_mem _ present), second, behind,
          before, same⟩
    · cases done

end Whole

/-- Segments that run forward, each starting at the very point where the one before ends. -/
structure Joined (segments : List (Segment α)) : Prop where
  forward : ∀ s ∈ segments, s.start.x ≤ s.finish.x
  meets : segments.IsChain fun first second => second.start = first.finish

namespace Joined

variable {s : Segment α} {later segments : List (Segment α)}

/-- What is joined stays so without its first segment. -/
theorem tail (joined : Joined (s :: later)) : Joined later :=
  ⟨(List.forall_mem_cons.mp joined.forward).2, joined.meets.tail⟩

/-- A segment that ends where joined segments start is joined to them. -/
theorem cons {next : Segment α} (forward : s.start.x ≤ s.finish.x) (meets : next.start = s.finish)
    (joined : Joined (next :: later)) : Joined (s :: next :: later) :=
  ⟨List.forall_mem_cons.mpr ⟨forward, joined.forward⟩, joined.meets.cons_cons meets⟩

/-- What comes behind a segment starts at its end or behind it. -/
theorem behind (joined : Joined (s :: later)) : ∀ t ∈ later, s.finish.x ≤ t.start.x := by
  -- Each segment begins where the one before ends, and none goes back.
  induction later generalizing s with
  | nil => exact List.forall_mem_nil _
  | cons next rest ih =>
    have meets : next.start = s.finish := joined.meets.rel
    have forward := joined.tail.forward next (List.mem_cons_self ..)
    refine List.forall_mem_cons.mpr ⟨meets ▸ le_refl _, fun t member => ?_⟩
    exact (meets ▸ forward).trans (ih joined.tail t member)

/-- Joined segments follow each other. -/
theorem row (joined : Joined segments) :
    segments.Pairwise fun first second => first.finish.x ≤ second.start.x := by
  induction segments with
  | nil => exact .nil
  | cons s later ih => exact List.pairwise_cons.mpr ⟨joined.behind, ih joined.tail⟩

/-- Joined segments are in order. -/
theorem sort_eq (joined : Joined segments) : segments.mergeSort inOrder = segments := by
  refine List.mergeSort_of_pairwise
    (joined.row.imp_of_mem fun {first second} one other before => ?_)
  -- A segment that starts where the one before does makes that one a jump.
  refine inOrder_iff.mpr ((joined.forward first one).trans before |>.lt_or_eq.imp_right ?_)
  exact fun same => ⟨same, before.trans (joined.forward second other)⟩

/-- Joined segments need no links. -/
theorem withLinks_eq (joined : Joined segments) : withLinks segments = segments := by
  -- Where segments meet, no link is put between them.
  cases segments with
  | nil => rfl
  | cons first later =>
    refine congrArg (first :: ·) ?_
    induction later generalizing first with
    | nil => rfl
    | cons next rest ih => rw [linksFrom, if_pos joined.meets.rel, ih next joined.tail]

/-- Joined segments that are valid make up an envelope as they are. -/
theorem ofSegments_eq {envelope : Envelope α} (joined : Joined envelope.segments)
    (valid : ∀ s ∈ envelope.segments, s.Valid) : ofSegments envelope.segments = .ok envelope := by
  refine (ofSegments_eq_ok_iff valid).mpr ⟨envelope.nonempty, joined.row.imp Or.inl, ?_⟩
  rw [joined.sort_eq, joined.withLinks_eq]

/-- Scaling heights leaves segments joined. -/
theorem scaleY (joined : Joined segments) (factor : α) :
    Joined (segments.map (·.scaleY factor)) where
  forward := List.forall_mem_map.mpr joined.forward
  meets := (List.isChain_map _).mpr <| joined.meets.imp fun _ _ meets =>
    congrArg (Point.scaleY · factor) meets

end Joined

section Links

variable {s : Segment α} {segments : List (Segment α)}

/-- Segments and links that follow a segment are joined to it. -/
theorem joined_linksFrom (forward : s.start.x ≤ s.finish.x) (valid : ∀ t ∈ segments, t.Valid)
    (behind : ∀ t ∈ segments, s.finish.x ≤ t.start.x)
    (row : segments.Pairwise fun first second => first.finish.x ≤ second.start.x) :
    Joined (s :: linksFrom s.finish segments) := by
  induction segments generalizing s with
  | nil => exact ⟨List.forall_mem_singleton.mpr forward, .singleton _⟩
  | cons next later ih =>
    obtain ⟨fits, others⟩ := List.forall_mem_cons.mp valid
    obtain ⟨after, _⟩ := List.forall_mem_cons.mp behind
    obtain ⟨first, rest⟩ := List.pairwise_cons.mp row
    have joined := ih fits.forward others first rest
    rw [linksFrom]
    -- A link is put in unless the next segment starts where this one ends.
    by_cases meets : next.start = s.finish
    · rw [if_pos meets]
      exact joined.cons forward meets
    · rw [if_neg meets]
      exact (joined.cons after rfl).cons forward rfl

/-- Segments and links behind a point are valid if the point and the segments are. -/
theorem valid_linksFrom {previous : Point α} (begins : 0 ≤ previous.x)
    (valid : ∀ t ∈ segments, t.Valid) (behind : ∀ t ∈ segments, previous.x ≤ t.start.x)
    (row : segments.Pairwise fun first second => first.finish.x ≤ second.start.x) :
    ∀ t ∈ linksFrom previous segments, t.Valid := by
  induction segments generalizing previous with
  | nil => exact List.forall_mem_nil _
  | cons next later ih =>
    obtain ⟨fits, others⟩ := List.forall_mem_cons.mp valid
    obtain ⟨after, _⟩ := List.forall_mem_cons.mp behind
    obtain ⟨first, rest⟩ := List.pairwise_cons.mp row
    have linked := ih (fits.start.trans fits.forward) others first rest
    rw [linksFrom]
    -- A link leads from the point before to the start of the next segment, which is no earlier.
    split
    · exact List.forall_mem_cons.mpr ⟨fits, linked⟩
    · exact List.forall_mem_cons.mpr
        ⟨valid_linear begins after, List.forall_mem_cons.mpr ⟨fits, linked⟩⟩

/-- An envelope that has been made of valid segments has valid segments, which are joined. -/
theorem joined_of_ofSegments (valid : ∀ t ∈ segments, t.Valid) {envelope : Envelope α}
    (made : ofSegments segments = .ok envelope) :
    Joined envelope.segments ∧ ∀ t ∈ envelope.segments, t.Valid := by
  obtain ⟨_, apart, same⟩ := (ofSegments_eq_ok_iff valid).mp made
  have row := (row_sort_iff valid).mpr apart
  have perm := List.mergeSort_perm segments inOrder
  rw [same]
  -- The segments are linked in the order that sorting gives them.
  cases sorted : segments.mergeSort inOrder with
  | nil => exact ⟨⟨List.forall_mem_nil _, .nil⟩, List.forall_mem_nil _⟩
  | cons first later =>
    rw [sorted] at row perm
    have all : ∀ t ∈ first :: later, t.Valid := fun t member => valid t (perm.mem_iff.mp member)
    obtain ⟨fits, others⟩ := List.forall_mem_cons.mp all
    obtain ⟨behind, rest⟩ := List.pairwise_cons.mp row
    exact ⟨joined_linksFrom fits.forward others behind rest, List.forall_mem_cons.mpr
      ⟨fits, valid_linksFrom (fits.start.trans fits.forward) others behind rest⟩⟩

/-- Straight lines through valid points in order are joined and valid. -/
theorem joined_lines {start : Point α} {points : List (Point α)} (begins : 0 ≤ start.x)
    (ordered : (start :: points).Pairwise fun p q => p.x ≤ q.x) :
    Joined (lines start points) ∧ ∀ t ∈ lines start points, t.Valid := by
  induction points generalizing start with
  | nil => exact ⟨⟨List.forall_mem_nil _, .nil⟩, List.forall_mem_nil _⟩
  | cons next later ih =>
    obtain ⟨before, rest⟩ := List.pairwise_cons.mp ordered
    have forward : start.x ≤ next.x := before next (List.mem_cons_self ..)
    obtain ⟨joined, valid⟩ := ih (begins.trans forward) rest
    have fits : (⟨start, next, .linear⟩ : Segment α).Valid := valid_linear begins forward
    refine ⟨?_, List.forall_mem_cons.mpr ⟨fits, valid⟩⟩
    -- The line behind the first one starts where that ends, if there is any.
    cases later with
    | nil => exact ⟨List.forall_mem_singleton.mpr forward, .singleton _⟩
    | cons further others => exact joined.cons forward rfl

end Links

/-- Valid segments make an envelope exactly when there are any and each two of them keep out of each
other; the envelope has them in order, ties as they were given, with a straight link between
neighbours that do not meet; and it is made again of its own segments, as an envelope through points
in order is. -/
theorem ofSegments_exact {segments : List (Segment α)} (valid : ∀ s ∈ segments, s.Valid) :
    ((∃ envelope, ofSegments segments = .ok envelope) ↔
        segments ≠ [] ∧ segments.Pairwise Apart) ∧
      (∀ error, ofSegments segments = .error error →
        segments = [] ∧ error = .empty ∨ ∃ first ∈ segments, ∃ second ∈ segments,
          second.start.x < first.finish.x ∧
            error = .intersecting second.start.x first.finish.x) ∧
      (∀ envelope, ofSegments segments = .ok envelope →
        (∃ sorted : List (Segment α), sorted.Perm segments ∧ sorted.Pairwise Precedes ∧
          (∀ row : List (Segment α), row.Sublist segments → row.Pairwise Precedes →
            row.Sublist sorted) ∧
          envelope.segments = withLinks sorted) ∧
        envelope.segments.IsChain (fun first second => second.start = first.finish) ∧
        ofSegments envelope.segments = .ok envelope) ∧
      ∀ (first second : Point α) (later : List (Point α)),
        (∀ p ∈ first :: second :: later, 0 ≤ p.x) →
        (first :: second :: later).Pairwise (fun p q => p.x ≤ q.x) →
        ofSegments (polyline first second later).segments = .ok (polyline first second later) := by
  -- Acceptance comes first, then what is refused, what is made, and made again.
  refine ⟨⟨?_, ?_⟩, fun error => ofSegments_eq_error valid, fun envelope made => ?_, ?_⟩
  · rintro ⟨envelope, made⟩
    obtain ⟨some, apart, _⟩ := (ofSegments_eq_ok_iff valid).mp made
    exact ⟨some, apart⟩
  · rintro ⟨some, apart⟩
    have sorted : segments.mergeSort inOrder ≠ [] :=
      fun none => some (none ▸ List.mergeSort_perm segments inOrder).symm.eq_nil
    exact ⟨⟨_, withLinks_ne_nil sorted⟩, (ofSegments_eq_ok_iff valid).mpr ⟨some, apart, rfl⟩⟩
  · obtain ⟨_, _, same⟩ := (ofSegments_eq_ok_iff valid).mp made
    obtain ⟨joined, whole⟩ := joined_of_ofSegments valid made
    exact ⟨⟨_, List.mergeSort_perm segments inOrder, sort_inOrder segments,
      fun _ => sublist_sort, same⟩, joined.meets, joined.ofSegments_eq whole⟩
  · intro first second later points ordered
    obtain ⟨joined, whole⟩ := joined_lines (points first (List.mem_cons_self ..)) ordered
    exact joined.ofSegments_eq whole

/-- A rise in front of a jump and of the fall before that make an envelope in order, whose segments
make it again. -/
theorem ofSegments_exact_scattered :
    let scattered : List (Segment ℝ) :=
      [⟨⟨2, 0⟩, ⟨3, 1⟩, .linear⟩, ⟨⟨1, 1 / 2⟩, ⟨1, 0⟩, .linear⟩, ⟨⟨0, 1⟩, ⟨1, 1 / 2⟩, .linear⟩]
    (∀ s ∈ scattered, s.Valid) ∧ ∃ envelope, ofSegments scattered = .ok envelope ∧
      ofSegments envelope.segments = .ok envelope := by
  intro scattered
  have valid : ∀ s ∈ scattered, s.Valid := by
    simp only [scattered, List.forall_mem_cons]
    refine ⟨valid_linear ?_ ?_, valid_linear ?_ ?_, valid_linear ?_ ?_, List.forall_mem_nil _⟩
    all_goals norm_num
  have apart : scattered.Pairwise Apart := by
    norm_num [scattered, Apart]
  -- The segments were given backwards; what is made of them is made again from itself.
  obtain ⟨⟨_, makes⟩, _, again, _⟩ := ofSegments_exact valid
  obtain ⟨envelope, made⟩ := makes ⟨List.cons_ne_nil _ _, apart⟩
  exact ⟨valid, envelope, made, (again envelope made).2.2⟩

/-- The envelopes that can be made. -/
inductive Made : Envelope α → Prop
  /-- Valid segments are put in order and linked. -/
  | ofSegments {segments : List (Segment α)} {envelope : Envelope α}
      (valid : ∀ s ∈ segments, s.Valid) (made : Envelope.ofSegments segments = .ok envelope) :
      Made envelope
  /-- Straight lines run through points in order. -/
  | polyline {first second : Point α} {later : List (Point α)}
      (points : ∀ p ∈ first :: second :: later, 0 ≤ p.x)
      (ordered : (first :: second :: later).Pairwise fun p q => p.x ≤ q.x) :
      Made (Envelope.polyline first second later)
  /-- Every height is scaled. -/
  | scaleY {envelope : Envelope α} (made : Made envelope) (factor : α) :
      Made (envelope.scaleY factor)

/-- The segments of every envelope that can be made are joined. -/
theorem Made.joined {envelope : Envelope α} (made : envelope.Made) : Joined envelope.segments := by
  induction made with
  | ofSegments valid made => exact (joined_of_ofSegments valid made).1
  | polyline points ordered =>
    exact (joined_lines (points _ (List.mem_cons_self ..)) ordered).1
  | scaleY _ factor joined => exact joined.scaleY factor

end Envelope

end Melody
