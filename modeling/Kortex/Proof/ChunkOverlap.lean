import Kortex.Proof.ChunkCoverage

/-
This file proves when every chunk of a text holds more than what the chunk before it carries over.
-/

namespace Kortex.Chunker

/-- A piece that is not blank was appended to this chunk. -/
def Fresh (placed : List (Str × Nat)) (index : Nat) : Prop :=
  ∃ piece ∈ placed, piece.2 = index ∧ Str.strip piece.1 ≠ []

/-- Every chunk of the list is nonempty and holds a piece that was appended to it. -/
def AllFresh (placed : List (Str × Nat)) (chunks : List (Nat × Str)) : Prop :=
  ∀ chunk ∈ chunks, chunk.2 ≠ [] ∧ Fresh placed chunk.1

variable (maxChars overlapChars : Nat)

/-- The piece is a slice that fills its chunk, where the flush carries a tail over. -/
def Fills (c : Chunks) (piece : Piece) : Prop :=
  piece.slice = true ∧ 0 < overlapChars ∧
    maxChars ≤ (ready maxChars overlapChars c piece.text).bufferChars + piece.text.length + 1

/-- There is a next piece, and it goes into the buffer. -/
def Continues (c : Chunks) (rest : List Piece) : Prop :=
  ∃ piece ∈ rest.head?, ¬ full maxChars c piece.text = true

/-- No piece is blank, and what a slice that fills its chunk carries over is continued. -/
def Clear : Chunks → List Piece → Prop
  | _, [] => True
  | c, piece :: rest =>
      Str.strip piece.text ≠ [] ∧
        (Fills maxChars overlapChars c piece →
          Continues maxChars (put maxChars overlapChars c piece) rest) ∧
        Clear (put maxChars overlapChars c piece) rest

variable {maxChars overlapChars}

/-- No piece was appended to the chunk that the state numbers next. -/
def Behind (placed : List (Str × Nat)) (c : Chunks) : Prop := ∀ piece ∈ placed, piece.2 < c.chunkIndex

/-- The buffer holds a piece of the chunk that the state numbers next. -/
def Live (placed : List (Str × Nat)) (c : Chunks) : Prop :=
  ∃ piece ∈ c.buffer, (piece, c.chunkIndex) ∈ placed ∧ Str.strip piece ≠ []

/-- This is what the state keeps as long as all chunks are fresh. -/
structure Tracked (placed : List (Str × Nat)) (c : Chunks) : Prop where
  bounded : ∀ piece ∈ placed, piece.2 ≤ c.chunkIndex
  fresh : AllFresh placed c.yielded
  side : Live placed c ∨ Behind placed c

variable {placed : List (Str × Nat)} {c : Chunks}

theorem Live.not_behind (live : Live placed c) : ¬ Behind placed c := by
  intro behind
  obtain ⟨piece, _, present, _⟩ := live
  exact Nat.lt_irrefl _ (behind _ present)

theorem Live.buffer_ne_nil (live : Live placed c) : c.buffer ≠ [] := by
  obtain ⟨piece, inside, _⟩ := live
  exact List.ne_nil_of_mem inside

theorem Live.body_ne_nil (live : Live placed c) : body c.buffer ≠ [] := by
  obtain ⟨piece, inside, _, filled⟩ := live
  intro empty
  have part := strip_infix_body c.buffer piece inside
  rw [empty] at part
  exact filled (List.infix_nil.mp part)

theorem Live.fresh (live : Live placed c) : Fresh placed c.chunkIndex := by
  obtain ⟨piece, _, present, filled⟩ := live
  exact ⟨_, present, rfl, filled⟩

theorem AllFresh.append {chunks : List (Nat × Str)} (fresh : AllFresh placed chunks)
    (more : List (Str × Nat)) : AllFresh (placed ++ more) chunks := by
  intro chunk inside
  obtain ⟨filled, piece, present, own⟩ := fresh chunk inside
  exact ⟨filled, piece, List.mem_append_left _ present, own⟩

/-- A chunk that only blank pieces were appended to is not fresh. -/
theorem not_allFresh (chunks : List (Nat × Str)) (index : Nat) (chunk : Str)
    (inside : (index, chunk) ∈ chunks) (blank : ∀ piece ∈ placed, piece.2 = index → Str.strip piece.1 = []) :
    ¬ AllFresh placed chunks := by
  intro fresh
  obtain ⟨_, piece, present, same, filled⟩ := fresh _ inside
  exact filled (blank piece present same)

theorem tail_eq_nil_iff (chunk : Str) (filled : chunk ≠ []) :
    tail overlapChars chunk = [] ↔ overlapChars = 0 := by
  have long := List.length_pos_iff.mpr filled
  rw [tail]
  split
  · rw [List.drop_eq_nil_iff]
    omega
  · exact iff_of_true rfl (by omega)

theorem chunkIndex_flush_of_ne (filled : c.buffer ≠ []) :
    (flush overlapChars c).chunkIndex = c.chunkIndex + 1 := by
  rw [flush_of_ne c filled]

theorem behind_flush (bounded : ∀ piece ∈ placed, piece.2 ≤ c.chunkIndex) (filled : c.buffer ≠ []) :
    Behind placed (flush overlapChars c) := by
  intro piece inside
  rw [chunkIndex_flush_of_ne filled]
  exact Nat.lt_succ_of_le (bounded piece inside)

theorem allFresh_flush (fresh : AllFresh placed c.yielded) (live : Live placed c) :
    AllFresh placed (flush overlapChars c).yielded := by
  rw [flush_of_ne c live.buffer_ne_nil]
  intro chunk inside
  rcases List.mem_append.mp inside with old | new
  · exact fresh chunk old
  · rw [List.mem_singleton.mp new]
    exact ⟨live.body_ne_nil, live.fresh⟩

theorem tracked_flush (tracked : Tracked placed c) (live : Live placed c) :
    Tracked placed (flush overlapChars c) where
  bounded piece inside := (tracked.bounded piece inside).trans (chunkIndex_flush c)
  fresh := allFresh_flush tracked.fresh live
  side := Or.inr (behind_flush tracked.bounded live.buffer_ne_nil)

/-- A piece that is not blank makes its chunk live. -/
theorem live_place (piece : Str) (filled : Str.strip piece ≠ []) :
    Live (placed ++ [(piece, (ready maxChars overlapChars c piece).chunkIndex)])
      (place maxChars overlapChars c piece) := by
  rw [place_eq]
  exact ⟨piece, List.mem_append_right _ (List.mem_singleton_self _),
    List.mem_append_right _ (List.mem_singleton_self _), filled⟩

theorem tracked_place (piece : Str) (tracked : Tracked placed (ready maxChars overlapChars c piece))
    (filled : Str.strip piece ≠ []) :
    Tracked (placed ++ [(piece, (ready maxChars overlapChars c piece).chunkIndex)])
      (place maxChars overlapChars c piece) where
  bounded := by
    intro other inside
    rcases List.mem_append.mp inside with old | new
    · exact tracked.bounded other old
    · rw [List.mem_singleton.mp new]
      exact Nat.le_refl _
  fresh := tracked.fresh.append _
  side := Or.inl (live_place piece filled)

/-- A tail that the next piece does not continue makes a chunk of its own. -/
theorem not_allFresh_of_tail (behind : Behind placed c) (filled : c.buffer ≠ []) (rest : List Piece)
    (stops : ¬ Continues maxChars c rest) :
    ¬ AllFresh (placed ++ placements maxChars overlapChars c rest) (result maxChars overlapChars c rest) := by
  cases rest with
  | nil =>
      apply not_allFresh _ _ _ (mem_yielded_flush _ filled)
      intro piece inside same
      rw [placements, List.append_nil] at inside
      exact absurd same (Nat.ne_of_lt (behind piece inside))
  | cons piece rest =>
      have overflows : full maxChars c piece.text = true := by
        by_contra fits
        exact stops ⟨piece, rfl, fits⟩
      apply not_allFresh _ _ _
        ((flush_prefix_of_full c piece rest overflows).subset (mem_yielded_flush _ filled))
      intro other inside same
      have next := @ready_of_full maxChars overlapChars c piece.text overflows
      have above := @chunkIndex_flush_of_ne overlapChars c filled
      rcases List.mem_append.mp inside with old | new
      · exact absurd same (Nat.ne_of_lt (behind other old))
      · rcases List.mem_cons.mp new with rfl | later
        · rw [next, above] at same
          omega
        · have step := @chunkIndex_put maxChars overlapChars c piece
          have bound := chunkIndex_le_placements _ rest other later
          rw [next, above] at step
          omega

/-- A blank slice fills a chunk alone. -/
theorem not_allFresh_of_blank (tracked : Tracked placed c) (piece : Piece) (rest : List Piece)
    (sliced : piece.slice = true) (long : piece.text.length = maxChars) (blank : Str.strip piece.text = [])
    : ¬ AllFresh (placed ++ placements maxChars overlapChars c (piece :: rest))
      (result maxChars overlapChars c (piece :: rest)) := by
  have behind : Behind placed (ready maxChars overlapChars c piece.text) := by
    by_cases overflows : full maxChars c piece.text = true
    · rw [ready_of_full c piece.text overflows]
      exact behind_flush tracked.bounded ((full_iff c piece.text).mp overflows).2
    · rw [ready_of_not_full c piece.text overflows]
      have empty : c.buffer = [] := by
        by_contra filled
        exact overflows ((full_iff c piece.text).mpr ⟨by omega, filled⟩)
      rcases tracked.side with live | behind
      · exact absurd empty live.buffer_ne_nil
      · exact behind
  have flushes : put maxChars overlapChars c piece =
      flush overlapChars (place maxChars overlapChars c piece.text) := by
    rw [put_eq, if_pos]
    refine ⟨sliced, ?_⟩
    rw [place_eq, append]
    dsimp only
    omega
  have filled : (place maxChars overlapChars c piece.text).buffer ≠ [] := by
    rw [place_eq, append]
    simp
  apply not_allFresh _ _ _ ((yielded_prefix_result (put maxChars overlapChars c piece) rest).subset
    (flushes ▸ mem_yielded_flush _ filled))
  intro other inside same
  change other.2 = (ready maxChars overlapChars c piece.text).chunkIndex at same
  rcases List.mem_append.mp inside with old | new
  · exact absurd same (Nat.ne_of_lt (behind other old))
  · rcases List.mem_cons.mp new with rfl | later
    · exact blank
    · have bound := chunkIndex_le_placements _ rest other later
      rw [flushes, chunkIndex_flush_of_ne filled] at bound
      change (ready maxChars overlapChars c piece.text).chunkIndex + 1 ≤ other.2 at bound
      omega

/-- A flush leaves a tail exactly where chunks overlap. -/
theorem buffer_flush_live (live : Live placed c) : (flush overlapChars c).buffer ≠ [] ↔ 0 < overlapChars := by
  have none := @tail_eq_nil_iff overlapChars _ live.body_ne_nil
  have left : 0 < overlapChars ↔ ¬ tail overlapChars (body c.buffer) = [] := by
    rw [none, Nat.pos_iff_ne_zero]
  rw [flush_of_ne c live.buffer_ne_nil, left]
  dsimp only
  split
  · next empty => simp [empty]
  · next left => simp [left]

/-- The piece that comes next leaves the chunk before it fresh, unless that chunk is a tail only. -/
theorem tracked_ready (tracked : Tracked placed c) (piece : Piece)
    (continued : Behind placed c → c.buffer ≠ [] → ¬ full maxChars c piece.text = true) :
    Tracked placed (ready maxChars overlapChars c piece.text) := by
  by_cases overflows : full maxChars c piece.text = true
  · rw [ready_of_full c piece.text overflows]
    rcases tracked.side with live | behind
    · exact tracked_flush tracked live
    · exact absurd overflows (continued behind ((full_iff c piece.text).mp overflows).2)
  · rw [ready_of_not_full c piece.text overflows]
    exact tracked

/-- At the end of the text, a tail without a new piece would be a chunk of its own. -/
theorem allFresh_end (c : Chunks) (placed : List (Str × Nat)) (tracked : Tracked placed c) :
    AllFresh (placed ++ placements maxChars overlapChars c []) (result maxChars overlapChars c []) ↔
      (Behind placed c → c.buffer ≠ [] → Continues maxChars c []) ∧ Clear maxChars overlapChars c [] := by
  by_cases alone : Behind placed c ∧ c.buffer ≠ []
  · have stops : ¬ Continues maxChars c [] := by
      rintro ⟨piece, none, _⟩
      exact absurd none (by simp)
    exact iff_of_false (not_allFresh_of_tail alone.1 alone.2 [] stops)
      (fun both => stops (both.1 alone.1 alone.2))
  · rw [placements, List.append_nil]
    refine iff_of_true ?_ ⟨fun behind filled => absurd ⟨behind, filled⟩ alone, trivial⟩
    change AllFresh placed (flush overlapChars c).yielded
    rcases tracked.side with live | behind
    · exact allFresh_flush tracked.fresh live
    · rw [flush_of_eq c (by_contra fun filled => alone ⟨behind, filled⟩)]
      exact tracked.fresh

/-- From a state where all chunks are fresh, all stay fresh exactly when no tail is left alone and no
piece is blank. -/
theorem allFresh_result (c : Chunks) (placed : List (Str × Nat)) (rest : List Piece)
    (middle : ∀ piece ∈ rest, Str.strip piece.text = [] →
      piece.slice = true ∧ piece.text.length = maxChars) (tracked : Tracked placed c) :
    AllFresh (placed ++ placements maxChars overlapChars c rest) (result maxChars overlapChars c rest) ↔
      (Behind placed c → c.buffer ≠ [] → Continues maxChars c rest) ∧
        Clear maxChars overlapChars c rest := by
  induction rest generalizing c placed with
  | nil => exact allFresh_end c placed tracked
  | cons piece rest ih =>
      rw [List.forall_mem_cons] at middle
      by_cases stops : Behind placed c ∧ c.buffer ≠ [] ∧ full maxChars c piece.text = true
      · have alone : ¬ Continues maxChars c (piece :: rest) := by
          rintro ⟨first, same, fits⟩
          exact fits (Option.some.inj same ▸ stops.2.2)
        exact iff_of_false (not_allFresh_of_tail stops.1 stops.2.1 _ alone)
          (fun both => alone (both.1 stops.1 stops.2.1))
      · have continued (behind : Behind placed c) (filled : c.buffer ≠ []) :
            ¬ full maxChars c piece.text = true :=
          fun overflows => stops ⟨behind, filled, overflows⟩
        rw [and_iff_right (fun behind filled => ⟨piece, rfl, continued behind filled⟩), Clear]
        by_cases blank : Str.strip piece.text = []
        · obtain ⟨sliced, long⟩ := middle.1 blank
          exact iff_of_false (not_allFresh_of_blank tracked piece rest sliced long blank)
            (fun both => both.1 blank)
        · rw [and_iff_right blank]
          have before := @tracked_ready maxChars overlapChars _ _ tracked piece continued
          have live := @live_place maxChars overlapChars
            placed c piece.text blank
          have after := tracked_place piece.text before blank
          rw [placements, List.append_cons]
          change AllFresh _ (result maxChars overlapChars (put maxChars overlapChars c piece) rest) ↔ _
          by_cases flushes : piece.slice = true ∧
              maxChars ≤ (place maxChars overlapChars c piece.text).bufferChars
          · have flushed : put maxChars overlapChars c piece =
                flush overlapChars (place maxChars overlapChars c piece.text) := by
              rw [put_eq, if_pos flushes]
            have behind := @behind_flush overlapChars _ _ after.bounded live.buffer_ne_nil
            have tail_left := @buffer_flush_live overlapChars _ _ live
            have fills : Fills maxChars overlapChars c piece ↔ 0 < overlapChars :=
              ⟨fun fills => fills.2.1, fun overlaps => ⟨flushes.1, overlaps, flushes.2⟩⟩
            have following := ih _ _ middle.2 (@tracked_flush overlapChars _ _ after live)
            rw [flushed, following, fills, ← tail_left]
            exact and_congr_left' ⟨fun continues => continues behind, fun continues _ => continues⟩
          · have kept : put maxChars overlapChars c piece =
                place maxChars overlapChars c piece.text := by
              rw [put_eq, if_neg flushes]
            have fills : ¬ Fills maxChars overlapChars c piece :=
              fun fills => flushes ⟨fills.1, fills.2.2⟩
            rw [kept, ih _ _ middle.2 after]
            exact and_congr_left' (iff_of_true (fun behind => absurd behind live.not_behind)
              (fun filled => absurd filled fills))

/-- Every chunk holds a piece that is new exactly when no piece is blank and what a slice that fills
its chunk carries over is continued. -/
theorem chunkText_fresh_iff (text : Str) (maxTokens overlapTokens : Nat) (room : 1 ≤ maxTokens) :
    AllFresh
        (placements (maxTokens * charsPerToken) (overlapTokens * charsPerToken) {}
          (pieces (maxTokens * charsPerToken) text))
        (chunkText text maxTokens overlapTokens) ↔
      Clear (maxTokens * charsPerToken) (overlapTokens * charsPerToken) {}
        (pieces (maxTokens * charsPerToken) text) := by
  have start : Tracked [] {} :=
    ⟨fun _ inside => absurd inside List.not_mem_nil, fun _ inside => absurd inside List.not_mem_nil,
      Or.inr fun _ inside => absurd inside List.not_mem_nil⟩
  have positive : 0 < maxTokens * charsPerToken := Nat.mul_pos room (by decide)
  have all := @allFresh_result _ (overlapTokens * charsPerToken) {} [] _
    (blank_piece _ positive text) start
  rw [chunkText_eq]
  rw [List.nil_append] at all
  exact all.trans (and_iff_right fun _ filled => absurd rfl filled)

theorem chunkText_fresh_iff_three :
    AllFresh
        (placements (3 * charsPerToken) (1 * charsPerToken) {}
          (pieces (3 * charsPerToken) "One two. Three four!  Five"))
        (chunkText "One two. Three four!  Five" 3 1) ↔
      Clear (3 * charsPerToken) (1 * charsPerToken) {}
        (pieces (3 * charsPerToken) "One two. Three four!  Five") :=
  chunkText_fresh_iff "One two. Three four!  Five" 3 1 (by decide)

instance (placed : List (Str × Nat)) (index : Nat) : Decidable (Fresh placed index) :=
  inferInstanceAs (Decidable (∃ piece ∈ placed, piece.2 = index ∧ Str.strip piece.1 ≠ []))

instance (placed : List (Str × Nat)) (chunks : List (Nat × Str)) : Decidable (AllFresh placed chunks) :=
  inferInstanceAs (Decidable (∀ chunk ∈ chunks, chunk.2 ≠ [] ∧ Fresh placed chunk.1))

/-- The second chunk is the tail of the first one, because the second slice fills a chunk alone. -/
theorem chunkText_repeats :
    ¬ AllFresh
      (placements (2 * charsPerToken) (1 * charsPerToken) {}
        (pieces (2 * charsPerToken) "aaaaaaaabbbbbbbbc"))
      (chunkText "aaaaaaaabbbbbbbbc" 2 1) := by
  decide +kernel

end Kortex.Chunker
