import Kortex.Library.Run
import Kortex.Library.Strip
import Kortex.Model.Chunker

/-
This file reads `chunk_text` as one loop over the pieces of a text.
-/

namespace Kortex.Chunker

/-- A piece is a sentence, or a slice of a sentence that is too long. -/
structure Piece where
  text : Str
  slice : Bool

variable (maxChars overlapChars : Nat)

def piecesOf (sentence : Str) : List Piece :=
  if maxChars < sentence.length then (slices maxChars sentence).map fun text => ⟨text, true⟩
  else [⟨sentence, false⟩]

def pieces (text : Str) : List Piece := (splitSentences text).flatMap (piecesOf maxChars)

def put (c : Chunks) (piece : Piece) : Chunks :=
  if piece.slice then placeSlice maxChars overlapChars c piece.text
  else place maxChars overlapChars c piece.text

/-- This is what is yielded from here on, with the pieces that are left. -/
def result (c : Chunks) (rest : List Piece) : List (Nat × Str) :=
  (flush overlapChars (Run.final (put maxChars overlapChars) c rest)).yielded

theorem foldl_addSentence (sentences : List Str) (c : Chunks) :
    sentences.foldl (addSentence maxChars overlapChars) c =
      Run.final (put maxChars overlapChars) c (sentences.flatMap (piecesOf maxChars)) := by
  induction sentences generalizing c with
  | nil => rfl
  | cons sentence rest ih =>
      rw [List.foldl_cons, ih, List.flatMap_cons, Run.final_append]
      congr 1
      rw [addSentence, piecesOf]
      split
      · rw [Run.final, List.foldl_map]
        rfl
      · rfl

theorem mem_of_mem_splitFrom (skip : Nat) (before : Option Char) (part text found : Str)
    (inside : found ∈ splitFrom skip before part text) (c : Char) (present : c ∈ found) :
    c ∈ part ∨ c ∈ text := by
  induction text generalizing skip before part with
  | nil =>
      cases skip <;>
      · rw [splitFrom, List.mem_singleton] at inside
        exact Or.inl (inside ▸ present)
  | cons d rest ih =>
      cases skip with
      | succ skip =>
          rcases ih skip (some d) part inside with old | new
          · exact Or.inl old
          · exact Or.inr (List.mem_cons_of_mem _ new)
      | zero =>
          rw [splitFrom] at inside
          split at inside
          · rcases ih 0 (some d) (part ++ [d]) inside with old | new
            · rcases List.mem_append.mp old with own | last
              · exact Or.inl own
              · exact Or.inr (List.mem_cons.mpr (Or.inl (List.mem_singleton.mp last)))
            · exact Or.inr (List.mem_cons_of_mem _ new)
          · rcases List.mem_cons.mp inside with rfl | later
            · exact Or.inl present
            · rcases ih _ (some d) [] later with old | new
              · exact absurd old List.not_mem_nil
              · exact Or.inr (List.mem_cons_of_mem _ new)

/-- A text of whitespace only has no sentence. -/
theorem splitSentences_of_blank (text : Str) (blank : Str.strip text = []) :
    splitSentences text = [] := by
  have none : ((splitFrom 0 none [] text).filter fun p => p ≠ [] ∧ Str.strip p ≠ []) = [] := by
    rw [List.filter_eq_nil_iff]
    intro part inside
    have empty : Str.strip part = [] := by
      rw [Str.strip_eq_nil_iff]
      intro c present
      rcases mem_of_mem_splitFrom 0 _ [] text part inside c present with old | new
      · exact absurd old List.not_mem_nil
      · exact (Str.strip_eq_nil_iff text).mp blank c new
    simp [empty]
  rw [splitSentences, none]
  simp [blank]

/-- Each sentence is stripped, and it is not empty. -/
theorem sentence_stripped (text sentence : Str) (inside : sentence ∈ splitSentences text) :
    Str.strip sentence = sentence ∧ sentence ≠ [] := by
  rw [splitSentences] at inside
  split at inside
  · split at inside
    · exact absurd inside List.not_mem_nil
    · next filled =>
        rw [List.mem_singleton.mp inside]
        exact ⟨Str.strip_strip text, filled⟩
  · obtain ⟨part, kept, rfl⟩ := List.mem_map.mp inside
    have filled := List.of_mem_filter kept
    simp only [decide_eq_true_eq] at filled
    exact ⟨Str.strip_strip part, filled.2⟩

/-- The chunks of a text are what the loop over its pieces yields. -/
theorem chunkText_eq (text : Str) (maxTokens overlapTokens : Nat) :
    chunkText text maxTokens overlapTokens =
      result (maxTokens * charsPerToken) (overlapTokens * charsPerToken) {}
        (pieces (maxTokens * charsPerToken) text) := by
  rw [chunkText, result, pieces]
  split
  · next blank => rw [splitSentences_of_blank text blank]; rfl
  · dsimp only
    rw [foldl_addSentence]

/-- The slices of a sentence are its consecutive parts. -/
theorem flatten_slices (room : 0 < maxChars) (sentence : Str) :
    (slices maxChars sentence).flatten = sentence := by
  have front (n : Nat) : ((List.range n).map fun k =>
      (sentence.drop (k * maxChars)).take maxChars).flatten = sentence.take (n * maxChars) := by
    induction n with
    | zero => simp
    | succ n ih => rw [List.range_succ, List.map_append, List.flatten_append, ih, Nat.succ_mul,
        List.take_add, List.map_singleton, List.flatten_singleton]
  rw [slices, front, List.take_of_length_le]
  have whole := Nat.div_add_mod (sentence.length + maxChars - 1) maxChars
  have below := Nat.mod_lt (sentence.length + maxChars - 1) room
  rw [Nat.mul_comm] at whole
  omega

/-- A slice is as long as the limit, or it is the end of its sentence. -/
theorem slice_cases (room : 0 < maxChars) (sentence slice : Str)
    (inside : slice ∈ slices maxChars sentence) :
    slice.length = maxChars ∨ slice ≠ [] ∧ slice <:+ sentence := by
  obtain ⟨k, few, rfl⟩ := List.mem_map.mp inside
  rw [List.mem_range] at few
  have starts : k * maxChars < sentence.length := by
    have bound := (Nat.le_div_iff_mul_le room).mp (Nat.succ_le_of_lt few)
    rw [Nat.succ_mul] at bound
    omega
  by_cases more : maxChars ≤ (sentence.drop (k * maxChars)).length
  · exact Or.inl (List.length_take_of_le more)
  · refine Or.inr ?_
    rw [List.take_of_length_le (by omega)]
    refine ⟨?_, List.drop_suffix _ _⟩
    rw [List.ne_nil_iff_length_pos, List.length_drop]
    omega

/-- A text that is not blank has a piece. -/
theorem pieces_ne_nil (room : 0 < maxChars) (text : Str) (filled : Str.strip text ≠ []) :
    pieces maxChars text ≠ [] := by
  have some_sentence : splitSentences text ≠ [] := by
    rw [splitSentences]
    split
    · simp
    · next parts => exact parts
  obtain ⟨sentence, rest, whole⟩ := List.exists_cons_of_ne_nil some_sentence
  have own : piecesOf maxChars sentence ≠ [] := by
    rw [piecesOf]
    split
    · next long =>
        rw [Ne, List.map_eq_nil_iff, slices, List.map_eq_nil_iff, List.range_eq_nil, Nat.div_eq_zero_iff]
        omega
    · exact List.cons_ne_nil _ _
  rw [pieces, whole, List.flatMap_cons]
  exact List.append_ne_nil_of_left_ne_nil own _

/-- No piece is longer than the limit. -/
theorem length_piece_le (text : Str) (piece : Piece) (inside : piece ∈ pieces maxChars text) :
    piece.text.length ≤ maxChars := by
  obtain ⟨sentence, _, own⟩ := List.mem_flatMap.mp inside
  rw [piecesOf] at own
  split at own
  · obtain ⟨slice, sliced, rfl⟩ := List.mem_map.mp own
    obtain ⟨k, _, rfl⟩ := List.mem_map.mp sliced
    exact List.length_take_le _ _
  · next short =>
      rw [List.mem_singleton.mp own]
      exact Nat.le_of_not_lt short

/-- A piece of whitespace only is a slice from the middle of a sentence. -/
theorem blank_piece (room : 0 < maxChars) (text : Str) (piece : Piece)
    (inside : piece ∈ pieces maxChars text) (blank : Str.strip piece.text = []) :
    piece.slice = true ∧ piece.text.length = maxChars := by
  obtain ⟨sentence, present, own⟩ := List.mem_flatMap.mp inside
  obtain ⟨stripped, filled⟩ := sentence_stripped text sentence present
  rw [piecesOf] at own
  split at own
  · obtain ⟨slice, sliced, rfl⟩ := List.mem_map.mp own
    rcases slice_cases maxChars room sentence slice sliced with long | ⟨more, ends⟩
    · exact ⟨rfl, long⟩
    · obtain ⟨front, whole⟩ := ends
      have last : sentence.getLast? = some (slice.getLast more) := by
        rw [← whole, List.getLast?_append, List.getLast?_eq_some_getLast more, Option.some_or]
      have other := Str.strip_last sentence (slice.getLast more) (by rw [stripped, last])
      rw [(Str.strip_eq_nil_iff slice).mp blank _ (List.getLast_mem more)] at other
      exact absurd other (by simp)
  · rw [List.mem_singleton.mp own, stripped] at blank
    exact absurd blank filled

/-- This is the state in which the code appends a piece. -/
def ready (c : Chunks) (piece : Str) : Chunks :=
  if full maxChars c piece then flush overlapChars c else c

/-- The pieces of a run, each with the index of the chunk that it is appended to. -/
def placements : Chunks → List Piece → List (Str × Nat)
  | _, [] => []
  | c, piece :: rest =>
      (piece.text, (ready maxChars overlapChars c piece.text).chunkIndex) ::
        placements (put maxChars overlapChars c piece) rest

variable {maxChars overlapChars}

theorem place_eq (c : Chunks) (piece : Str) :
    place maxChars overlapChars c piece = append (ready maxChars overlapChars c piece) piece := rfl

/-- A piece is placed, and then a slice that fills its chunk flushes it. -/
theorem put_eq (c : Chunks) (piece : Piece) :
    put maxChars overlapChars c piece =
      if piece.slice ∧ maxChars ≤ (place maxChars overlapChars c piece.text).bufferChars then
        flush overlapChars (place maxChars overlapChars c piece.text)
      else place maxChars overlapChars c piece.text := by
  rw [put]
  cases piece.slice <;> simp [placeSlice]

theorem full_iff (c : Chunks) (piece : Str) :
    full maxChars c piece = true ↔ maxChars < c.bufferChars + piece.length + 1 ∧ c.buffer ≠ [] := by
  simp [full]

/-- What a property of the states survives, and a step of the loop with it. -/
theorem put_induction {P : Chunks → Prop} (c : Chunks) (piece : Piece)
    (flushed : ∀ c, P c → P (flush overlapChars c))
    (appended : P (ready maxChars overlapChars c piece.text) →
      P (place maxChars overlapChars c piece.text)) (start : P c) :
    P (put maxChars overlapChars c piece) := by
  have before : P (ready maxChars overlapChars c piece.text) := by
    rw [ready]
    split
    · exact flushed c start
    · exact start
  rw [put_eq]
  split
  · exact flushed _ (appended before)
  · exact appended before

theorem flush_of_ne (c : Chunks) (filled : c.buffer ≠ []) :
    flush overlapChars c =
      { chunkIndex := c.chunkIndex + 1
        buffer := if tail overlapChars (body c.buffer) = [] then []
          else [tail overlapChars (body c.buffer)]
        bufferChars := (tail overlapChars (body c.buffer)).length
        yielded := c.yielded ++ [(c.chunkIndex, body c.buffer)] } := by
  rw [flush, if_neg filled]

theorem mem_yielded_flush (c : Chunks) (filled : c.buffer ≠ []) :
    (c.chunkIndex, body c.buffer) ∈ (flush overlapChars c).yielded := by
  rw [flush_of_ne c filled]
  exact List.mem_append_right _ (List.mem_singleton_self _)

theorem flush_of_eq (c : Chunks) (empty : c.buffer = []) : flush overlapChars c = c := by
  rw [flush, if_pos empty]

theorem yielded_flush (c : Chunks) : c.yielded <+: (flush overlapChars c).yielded := by
  by_cases empty : c.buffer = []
  · rw [flush_of_eq c empty]
  · rw [flush_of_ne c empty]
    exact List.prefix_append _ _

theorem chunkIndex_flush (c : Chunks) : c.chunkIndex ≤ (flush overlapChars c).chunkIndex := by
  by_cases empty : c.buffer = []
  · rw [flush_of_eq c empty]
  · rw [flush_of_ne c empty]
    exact Nat.le_succ _

/-- What is yielded stays yielded. -/
theorem yielded_prefix_result (c : Chunks) (rest : List Piece) :
    c.yielded <+: result maxChars overlapChars c rest := by
  induction rest generalizing c with
  | nil => exact yielded_flush c
  | cons piece rest ih =>
      have step : c.yielded <+: (put maxChars overlapChars c piece).yielded :=
        put_induction (P := fun s => c.yielded <+: s.yielded) c piece
          (fun s before => before.trans (yielded_flush s)) (fun before => before)
          (List.prefix_refl _)
      exact step.trans (ih _)

theorem ready_of_full (c : Chunks) (piece : Str) (overflows : full maxChars c piece = true) :
    ready maxChars overlapChars c piece = flush overlapChars c := if_pos overflows

theorem ready_of_not_full (c : Chunks) (piece : Str) (fits : ¬ full maxChars c piece = true) :
    ready maxChars overlapChars c piece = c := if_neg fits

/-- A piece that does not go into the buffer makes the code yield it. -/
theorem flush_prefix_of_full (c : Chunks) (piece : Piece) (rest : List Piece)
    (overflows : full maxChars c piece.text = true) :
    (flush overlapChars c).yielded <+: result maxChars overlapChars c (piece :: rest) := by
  have yields : (flush overlapChars c).yielded <+: (put maxChars overlapChars c piece).yielded := by
    rw [put_eq, place_eq, ready_of_full c piece.text overflows]
    split
    · exact yielded_flush (append (flush overlapChars c) piece.text)
    · exact List.prefix_refl _
  exact yields.trans (yielded_prefix_result (put maxChars overlapChars c piece) rest)

theorem chunkIndex_put (c : Chunks) (piece : Piece) :
    (ready maxChars overlapChars c piece.text).chunkIndex ≤
      (put maxChars overlapChars c piece).chunkIndex := by
  rw [put_eq]
  split
  · exact chunkIndex_flush (place maxChars overlapChars c piece.text)
  · exact Nat.le_refl _

theorem chunkIndex_ready (c : Chunks) (piece : Str) :
    c.chunkIndex ≤ (ready maxChars overlapChars c piece).chunkIndex := by
  rw [ready]
  split
  · exact chunkIndex_flush c
  · exact Nat.le_refl _

/-- No piece goes into a chunk that is behind. -/
theorem chunkIndex_le_placements (c : Chunks) (rest : List Piece) (placed : Str × Nat)
    (inside : placed ∈ placements maxChars overlapChars c rest) : c.chunkIndex ≤ placed.2 := by
  induction rest generalizing c with
  | nil => exact absurd inside List.not_mem_nil
  | cons piece rest ih =>
      have first := @chunkIndex_ready maxChars overlapChars c piece.text
      rcases List.mem_cons.mp inside with rfl | later
      · exact first
      · exact first.trans ((chunkIndex_put c piece).trans (ih _ later))

/-- A piece of the buffer is a part of the chunk that the buffer makes. -/
theorem strip_infix_body (buffer : List Str) (piece : Str) (inside : piece ∈ buffer) :
    Str.strip piece <:+: body buffer :=
  Str.strip_infix _ _ (Str.infix_join ' ' piece buffer inside)

end Kortex.Chunker
