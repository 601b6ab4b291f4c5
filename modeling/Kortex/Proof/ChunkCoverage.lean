import Kortex.Proof.Chunker

/-
This file proves that the chunks of a text keep all of its pieces, in their order, and when every chunk fits
the token limit.
-/

namespace Kortex.Chunker

variable {maxChars overlapChars : Nat}

/-- The chunks of a state are numbered from zero. -/
def Numbered (c : Chunks) : Prop := c.yielded.map Prod.fst = List.range c.chunkIndex

theorem numbered_flush (c : Chunks) (numbered : Numbered c) : Numbered (flush overlapChars c) := by
  by_cases empty : c.buffer = []
  · rw [flush_of_eq c empty]
    exact numbered
  · rw [flush_of_ne c empty, Numbered, List.map_append, List.range_succ]
    exact congrArg (· ++ [c.chunkIndex]) numbered

theorem numbered_result (c : Chunks) (rest : List Piece) (numbered : Numbered c) :
    (result maxChars overlapChars c rest).map Prod.fst =
      List.range (result maxChars overlapChars c rest).length := by
  have last : Numbered (Run.final (put maxChars overlapChars) c rest) :=
    (Run.always_of_step (fun s piece before =>
      put_induction s piece numbered_flush (fun ready => ready) before) rest numbered).final
  have done := @numbered_flush overlapChars _ last
  have lengths := congrArg List.length done
  rw [List.length_map, List.length_range] at lengths
  rw [result, lengths]
  exact done

/-- The piece is in the chunk with this index, when the run ends. -/
def Kept (maxChars overlapChars : Nat) (c : Chunks) (rest : List Piece) (piece : Str) (index : Nat) :
    Prop :=
  ∃ chunk, (index, chunk) ∈ result maxChars overlapChars c rest ∧ Str.strip piece <:+: chunk

theorem kept_of_flush (c : Chunks) (rest : List Piece) (piece : Str) (inside : piece ∈ c.buffer)
    (s : Chunks) (yields : (flush overlapChars c).yielded <+: result maxChars overlapChars s rest) :
    Kept maxChars overlapChars s rest piece c.chunkIndex := by
  have chunk := @mem_yielded_flush overlapChars c (List.ne_nil_of_mem inside)
  exact ⟨body c.buffer, yields.subset chunk, strip_infix_body c.buffer piece inside⟩

theorem kept_of_put (c : Chunks) (next : Piece) (rest : List Piece) (piece : Str)
    (inside : piece ∈ (place maxChars overlapChars c next.text).buffer)
    (later : ∀ s : Chunks, piece ∈ s.buffer →
      Kept maxChars overlapChars s rest piece s.chunkIndex) :
    Kept maxChars overlapChars (put maxChars overlapChars c next) rest piece
      (ready maxChars overlapChars c next.text).chunkIndex := by
  rw [put_eq]
  split
  · exact kept_of_flush _ rest piece inside _ (yielded_prefix_result _ rest)
  · exact later _ inside

/-- A piece of the buffer ends up in the chunk that the state numbers next. -/
theorem kept_of_mem_buffer (c : Chunks) (rest : List Piece) (piece : Str) (inside : piece ∈ c.buffer) :
    Kept maxChars overlapChars c rest piece c.chunkIndex := by
  induction rest generalizing c with
  | nil => exact kept_of_flush c [] piece inside c (List.prefix_refl _)
  | cons next rest ih =>
      by_cases overflows : full maxChars c next.text = true
      · exact kept_of_flush c (next :: rest) piece inside c (flush_prefix_of_full c next rest overflows)
      · have before : ready maxChars overlapChars c next.text = c := if_neg overflows
        have appended : piece ∈ (place maxChars overlapChars c next.text).buffer := by
          rw [place_eq, before]
          exact List.mem_append_left _ inside
        have after := kept_of_put c next rest piece appended ih
        rw [before] at after
        exact after

/-- Each piece of a run ends up in the chunk that it is appended to. -/
theorem kept_of_placed (c : Chunks) (rest : List Piece) : ∀ placed ∈ placements maxChars overlapChars c rest,
    Kept maxChars overlapChars c rest placed.1 placed.2 := by
  induction rest generalizing c with
  | nil => exact fun _ inside => absurd inside List.not_mem_nil
  | cons piece rest ih =>
      intro placed inside
      rcases List.mem_cons.mp inside with rfl | later
      · have appended : piece.text ∈ (place maxChars overlapChars c piece.text).buffer := by
          rw [place_eq]
          exact List.mem_append_right _ (List.mem_singleton_self _)
        exact kept_of_put c piece rest piece.text appended
          (fun s present => kept_of_mem_buffer s rest piece.text present)
      · exact ih _ placed later

/-- The indices of the chunks that the pieces go into never fall. -/
theorem placements_sorted (c : Chunks) (rest : List Piece) :
    ((placements maxChars overlapChars c rest).map Prod.snd).Pairwise (· ≤ ·) := by
  induction rest generalizing c with
  | nil => exact List.Pairwise.nil
  | cons piece rest ih =>
      rw [placements, List.map_cons, List.pairwise_cons]
      refine ⟨?_, ih _⟩
      intro index inside
      obtain ⟨placed, later, rfl⟩ := List.mem_map.mp inside
      exact (chunkIndex_put c piece).trans (chunkIndex_le_placements _ rest placed later)

theorem placements_fst (c : Chunks) (rest : List Piece) :
    (placements maxChars overlapChars c rest).map Prod.fst = rest.map Piece.text := by
  induction rest generalizing c with
  | nil => rfl
  | cons piece rest ih => rw [placements, List.map_cons, List.map_cons, ih]

/-- A text that is not blank has a chunk. -/
theorem chunkText_ne_nil (text : Str) (maxTokens overlapTokens : Nat) (room : 0 < maxTokens)
    (filled : Str.strip text ≠ []) : chunkText text maxTokens overlapTokens ≠ [] := by
  have positive : 0 < maxTokens * charsPerToken := Nat.mul_pos room (by decide)
  obtain ⟨piece, rest, whole⟩ := List.exists_cons_of_ne_nil (pieces_ne_nil _ positive text filled)
  obtain ⟨chunk, inside, _⟩ := @kept_of_placed (maxTokens * charsPerToken)
    (overlapTokens * charsPerToken) {} (piece :: rest) _ List.mem_cons_self
  rw [chunkText_eq, whole]
  exact List.ne_nil_of_mem inside

/-- The chunks of a text are numbered without gaps, and its pieces go into them in their order. -/
theorem chunkText_covers (text : Str) (maxTokens overlapTokens : Nat) (room : 1 ≤ maxTokens) :
    let chunks := chunkText text maxTokens overlapTokens
    let maxChars := maxTokens * charsPerToken
    chunks.map Prod.fst = List.range chunks.length ∧
      (∃ indices : List Nat, indices.Pairwise (· ≤ ·) ∧
        List.Forall₂ (fun piece index => ∃ chunk, (index, chunk) ∈ chunks ∧ Str.strip piece <:+: chunk)
          ((pieces maxChars text).map Piece.text) indices) ∧
      ∀ sentence ∈ splitSentences text, (slices maxChars sentence).flatten = sentence := by
  intro chunks maxChars
  have yields : chunks = result maxChars (overlapTokens * charsPerToken) {} (pieces maxChars text) :=
    chunkText_eq text maxTokens overlapTokens
  have positive : 0 < maxChars := Nat.mul_pos room (by decide)
  have sorted := @placements_sorted maxChars (overlapTokens * charsPerToken)
    {} (pieces maxChars text)
  refine ⟨?_, ⟨_, sorted, ?_⟩, fun sentence _ => flatten_slices maxChars positive sentence⟩
  · rw [yields]
    exact numbered_result {} _ rfl
  · rw [← @placements_fst maxChars (overlapTokens * charsPerToken) {},
      List.forall₂_map_left_iff, List.forall₂_map_right_iff, List.forall₂_same, yields]
    exact kept_of_placed {} (pieces maxChars text)

theorem chunkText_covers_three :
    let chunks := chunkText "One two. Three four!  Five" 3 1
    let maxChars := 3 * charsPerToken
    chunks.map Prod.fst = List.range chunks.length ∧
      (∃ indices : List Nat, indices.Pairwise (· ≤ ·) ∧
        List.Forall₂ (fun piece index => ∃ chunk, (index, chunk) ∈ chunks ∧ Str.strip piece <:+: chunk)
          ((pieces maxChars "One two. Three four!  Five").map Piece.text) indices) ∧
      ∀ sentence ∈ splitSentences "One two. Three four!  Five",
        (slices maxChars sentence).flatten = sentence :=
  chunkText_covers "One two. Three four!  Five" 3 1 (by decide)

end Kortex.Chunker

namespace Kortex.Chunker

variable {maxChars overlapChars : Nat}

/-- The counter of the buffer covers what it joins to. -/
def Counted (c : Chunks) : Prop := (Str.join " " c.buffer).length ≤ c.bufferChars

theorem counted_flush (c : Chunks) (counted : Counted c) : Counted (flush overlapChars c) := by
  by_cases empty : c.buffer = []
  · rw [flush_of_eq c empty]
    exact counted
  · rw [flush_of_ne c empty, Counted]
    dsimp only
    split
    · exact Nat.zero_le _
    · simp [Str.join]

theorem counted_append (c : Chunks) (piece : Str) (counted : Counted c) : Counted (append c piece) := by
  rw [Counted, append]
  by_cases empty : c.buffer = []
  · rw [empty]
    simp only [List.nil_append, Str.join, List.intercalate_singleton]
    omega
  · have joined : Str.join " " (c.buffer ++ [piece]) = Str.join " " c.buffer ++ ' ' :: piece :=
      Split.intercalate_concat c.buffer piece empty
    rw [Counted] at counted
    rw [joined, List.length_append, List.length_cons]
    dsimp only
    omega

/-- Every chunk of the list fits the limit. -/
def AllFit (maxChars : Nat) (chunks : List (Nat × Str)) : Prop :=
  ∀ chunk ∈ chunks, chunk.2.length ≤ maxChars

theorem AllFit.front {first all : List (Nat × Str)} (fit : AllFit maxChars all)
    (front : first <+: all) : AllFit maxChars first :=
  fun chunk inside => fit chunk (front.subset inside)

theorem body_le (c : Chunks) (counted : Counted c) : (body c.buffer).length ≤ c.bufferChars :=
  (Str.length_strip_le _).trans counted

/-- The chunks of a flush fit when those before do, and the buffer does. -/
theorem allFit_flush (c : Chunks) : AllFit maxChars (flush overlapChars c).yielded ↔
    AllFit maxChars c.yielded ∧ (body c.buffer).length ≤ maxChars := by
  by_cases empty : c.buffer = []
  · rw [flush_of_eq c empty, empty]
    exact (and_iff_left (Nat.zero_le _)).symm
  · rw [flush_of_ne c empty]
    simp only [AllFit, List.forall_mem_append, List.forall_mem_singleton]

/-- The piece does not fit with the tail that the flush before it leaves. -/
def Oversize (maxChars overlapChars : Nat) (c : Chunks) (piece : Piece) : Prop :=
  full maxChars c piece.text = true ∧ tail overlapChars (body c.buffer) ≠ [] ∧
    maxChars < (body [tail overlapChars (body c.buffer), piece.text]).length

/-- This is what the state keeps as long as all chunks fit. -/
def Fitting (maxChars overlapChars : Nat) (c : Chunks) : Prop :=
  AllFit maxChars (flush overlapChars c).yielded ∧ Counted c

theorem tail_length_le (chunk : Str) : (tail overlapChars chunk).length ≤ chunk.length := by
  rw [tail]
  split
  · rw [List.length_drop]
    exact Nat.sub_le _ _
  · exact Nat.zero_le _

/-- After a flush the buffer is no longer than the chunk. -/
theorem fitting_flush (c : Chunks) (fitting : Fitting maxChars overlapChars c) :
    Fitting maxChars overlapChars (flush overlapChars c) := by
  refine ⟨(allFit_flush _).mpr ⟨fitting.1, ?_⟩, counted_flush c fitting.2⟩
  have fits := ((allFit_flush c).mp fitting.1).2
  by_cases empty : c.buffer = []
  · rw [flush_of_eq c empty]
    exact fits
  · rw [flush_of_ne c empty]
    dsimp only
    split
    · exact Nat.zero_le _
    · have shorter := @tail_length_le overlapChars (body c.buffer)
      have stripped := Str.length_strip_le (tail overlapChars (body c.buffer))
      simp only [body, Str.join, List.intercalate_singleton] at shorter stripped fits ⊢
      omega

theorem fitting_ready (c : Chunks) (piece : Str) (fitting : Fitting maxChars overlapChars c) :
    Fitting maxChars overlapChars (ready maxChars overlapChars c piece) := by
  by_cases overflows : full maxChars c piece = true
  · rw [ready_of_full c piece overflows]
    exact fitting_flush c fitting
  · rw [ready_of_not_full c piece overflows]
    exact fitting

/-- The chunk that a piece goes into fits exactly when the piece fits with the tail before it. -/
theorem body_place (c : Chunks) (piece : Piece) (short : piece.text.length ≤ maxChars)
    (counted : Counted c) :
    (body (place maxChars overlapChars c piece.text).buffer).length ≤ maxChars ↔
      ¬ Oversize maxChars overlapChars c piece := by
  have alone : (body [piece.text]).length ≤ maxChars := by
    have stripped := Str.length_strip_le piece.text
    simp only [body, Str.join, List.intercalate_singleton]
    omega
  rw [place_eq, append, Oversize]
  by_cases overflows : full maxChars c piece.text = true
  · have filled := ((full_iff c piece.text).mp overflows).2
    rw [ready_of_full c piece.text overflows, flush_of_ne c filled]
    by_cases empty : tail overlapChars (body c.buffer) = []
    · simp [empty, alone]
    · simp [empty, overflows]
  · rw [ready_of_not_full c piece.text overflows]
    rw [iff_true_right (fun both => overflows both.1)]
    by_cases empty : c.buffer = []
    · rw [empty]
      exact alone
    · have fits : c.bufferChars + piece.text.length + 1 ≤ maxChars := by
        by_contra more
        exact overflows ((full_iff c piece.text).mpr ⟨by omega, empty⟩)
      exact (body_le _ (counted_append c piece.text counted)).trans fits

/-- A buffer that is over the limit is yielded, whatever follows. -/
theorem not_allFit_of_body (c : Chunks) (rest : List Piece) (counted : Counted c)
    (over_limit : maxChars < (body c.buffer).length) :
    ¬ AllFit maxChars (result maxChars overlapChars c rest) := by
  have filled : c.buffer ≠ [] := by
    intro empty
    rw [empty] at over_limit
    exact absurd over_limit (Nat.not_lt_zero _)
  have yields : (flush overlapChars c).yielded <+: result maxChars overlapChars c rest := by
    cases rest with
    | nil => exact List.prefix_refl _
    | cons piece rest =>
        have large := body_le c counted
        exact flush_prefix_of_full c piece rest ((full_iff c piece.text).mpr ⟨by omega, filled⟩)
  intro fit
  have fits := ((allFit_flush c).mp (fit.front yields)).2
  omega

/-- From a state where all fits, all chunks fit exactly when no piece is too long for its chunk. -/
theorem allFit_result (c : Chunks) (rest : List Piece)
    (short : ∀ piece ∈ rest, piece.text.length ≤ maxChars) (fitting : Fitting maxChars overlapChars c) :
    AllFit maxChars (result maxChars overlapChars c rest) ↔
      Run.Each (put maxChars overlapChars) (fun s piece => ¬ Oversize maxChars overlapChars s piece) c rest := by
  induction rest generalizing c with
  | nil => exact iff_of_true fitting.1 trivial
  | cons piece rest ih =>
      rw [List.forall_mem_cons] at short
      have before := fitting_ready c piece.text fitting
      have counted := counted_append _ piece.text before.2
      have placed := @body_place maxChars overlapChars c piece short.1 fitting.2
      rw [← place_eq] at counted
      rw [Run.Each, ← placed]
      by_cases fits : (body (place maxChars overlapChars c piece.text).buffer).length ≤ maxChars
      · have after : Fitting maxChars overlapChars (place maxChars overlapChars c piece.text) :=
          ⟨(allFit_flush _).mpr ⟨before.1.front (yielded_flush (ready maxChars overlapChars c piece.text)),
            fits⟩, counted⟩
        rw [and_iff_right fits]
        apply ih _ short.2
        rw [put_eq]
        split
        · exact fitting_flush _ after
        · exact after
      · rw [iff_false_right (fun both => fits both.1)]
        change ¬ AllFit maxChars (result maxChars overlapChars (put maxChars overlapChars c piece) rest)
        rw [put_eq]
        split
        · intro fit
          exact fits ((allFit_flush _).mp (fit.front (yielded_prefix_result _ rest))).2
        · exact not_allFit_of_body _ rest counted (Nat.lt_of_not_le fits)

theorem estimateTokens_le (text : Str) (maxTokens : Nat) (room : 1 ≤ maxTokens) :
    estimateTokens text ≤ maxTokens ↔ text.length ≤ maxTokens * charsPerToken := by
  rw [estimateTokens, charsPerToken]
  split
  · next empty => simp [empty]
  · omega

/-- Every chunk fits the token limit exactly when no piece goes into a chunk with a tail that it does
not fit with. -/
theorem chunkText_fits_iff (text : Str) (maxTokens overlapTokens : Nat) (room : 1 ≤ maxTokens) :
    (∀ chunk ∈ chunkText text maxTokens overlapTokens, estimateTokens chunk.2 ≤ maxTokens) ↔
      Run.Each (put (maxTokens * charsPerToken) (overlapTokens * charsPerToken))
        (fun c piece =>
          ¬ Oversize (maxTokens * charsPerToken) (overlapTokens * charsPerToken) c piece)
        {} (pieces (maxTokens * charsPerToken) text) := by
  rw [chunkText_eq, ← allFit_result {} _ (length_piece_le _ text)
    ⟨fun _ inside => absurd inside List.not_mem_nil, Nat.le_refl _⟩]
  exact forall₂_congr fun chunk _ => estimateTokens_le chunk.2 maxTokens room

theorem chunkText_fits_iff_two :
    (∀ chunk ∈ chunkText "aaaaaaa. bbbbbbb." 2 1, estimateTokens chunk.2 ≤ 2) ↔
      Run.Each (put (2 * charsPerToken) (1 * charsPerToken))
        (fun c piece => ¬ Oversize (2 * charsPerToken) (1 * charsPerToken) c piece)
        {} (pieces (2 * charsPerToken) "aaaaaaa. bbbbbbb.") :=
  chunkText_fits_iff "aaaaaaa. bbbbbbb." 2 1 (by decide)

/-- The second sentence goes into a chunk with the tail of the first one, and both have eight
characters. -/
theorem chunkText_over_limit :
    ¬ ∀ chunk ∈ chunkText "aaaaaaa. bbbbbbb." 2 1, estimateTokens chunk.2 ≤ 2 := by
  decide +kernel

end Kortex.Chunker
