import Kortex.Library.Text

/-
This file models `chunker.py`: the sentences of a text and how they are packed into chunks.
-/

namespace Kortex.Chunker

def charsPerToken : Nat := 4

/-- This is `_estimate_tokens`. -/
def estimateTokens (text : Str) : Nat :=
  if text = [] then 0 else max 1 ((text.length + charsPerToken - 1) / charsPerToken)

/-- This is the length of a match of `_SENT_BOUNDARY` at a position, where zero stands for no match. -/
def boundaryLength (before : Option Char) (text : Str) : Nat :=
  if before.any (fun c => ".!?".toList.contains c) ∧ text.head?.any Str.isSpace then
    (text.takeWhile Str.isSpace).length
  else
    let newlines := (text.takeWhile (· == '\n')).length
    if 2 ≤ newlines then newlines else 0

/-- This is `_SENT_BOUNDARY.split(text)`; it skips the rest of a match before it reads the next part. -/
def splitFrom : Nat → Option Char → Str → Str → List Str
  | _, _, part, [] => [part]
  | skip + 1, _, part, c :: rest => splitFrom skip (some c) part rest
  | 0, before, part, c :: rest =>
      match boundaryLength before (c :: rest) with
      | 0 => splitFrom 0 (some c) (part ++ [c]) rest
      | skip + 1 => part :: splitFrom skip (some c) [] rest

/-- This is `_split_sentences`. -/
def splitSentences (text : Str) : List Str :=
  let parts := ((splitFrom 0 none [] text).filter fun p => p ≠ [] ∧ Str.strip p ≠ []).map Str.strip
  if parts = [] then (if Str.strip text = [] then [] else [Str.strip text]) else parts

/-- These are the variables of `chunk_text`, and what it has yielded. -/
structure Chunks where
  chunkIndex : Nat := 0
  buffer : List Str := []
  bufferChars : Nat := 0
  yielded : List (Nat × Str) := []

variable (maxChars overlapChars : Nat)

/-- This is the body of a chunk. -/
def body (buffer : List Str) : Str := Str.strip (Str.join " " buffer)

/-- This is `body[-overlap_chars:]`, which carries over. -/
def tail (body : Str) : Str :=
  if 0 < overlapChars then body.drop (body.length - overlapChars) else []

/-- This is `flush`, and the `yield` of what it returns. -/
def flush (c : Chunks) : Chunks :=
  if c.buffer = [] then c
  else
    let carried := tail overlapChars (body c.buffer)
    { chunkIndex := c.chunkIndex + 1
      buffer := if carried = [] then [] else [carried]
      bufferChars := carried.length
      yielded := c.yielded ++ [(c.chunkIndex, body c.buffer)] }

/-- A piece of this length does not go into the buffer. -/
def full (c : Chunks) (piece : Str) : Bool :=
  decide (maxChars < c.bufferChars + piece.length + 1) && !c.buffer.isEmpty

def append (c : Chunks) (piece : Str) : Chunks :=
  { c with buffer := c.buffer ++ [piece], bufferChars := c.bufferChars + piece.length + 1 }

/-- This is the end of the outer loop, and the start of the inner one. -/
def place (c : Chunks) (piece : Str) : Chunks :=
  append (if full maxChars c piece then flush overlapChars c else c) piece

/-- This is the inner loop, which flushes a full buffer at once. -/
def placeSlice (c : Chunks) (piece : Str) : Chunks :=
  let c := place maxChars overlapChars c piece
  if maxChars ≤ c.bufferChars then flush overlapChars c else c

/-- These are the pieces of `range(0, sent_chars, max_chars)`. -/
def slices (sentence : Str) : List Str :=
  (List.range ((sentence.length + maxChars - 1) / maxChars)).map fun k =>
    (sentence.drop (k * maxChars)).take maxChars

/-- This is one round of the outer loop. -/
def addSentence (c : Chunks) (sentence : Str) : Chunks :=
  if maxChars < sentence.length then
    (slices maxChars sentence).foldl (placeSlice maxChars overlapChars) c
  else place maxChars overlapChars c sentence

/-- This is `chunk_text`, as the list of what it yields. -/
def chunkText (text : Str) (maxTokens overlapTokens : Nat) : List (Nat × Str) :=
  if Str.strip text = [] then []
  else
    let maxChars := maxTokens * charsPerToken
    let overlapChars := overlapTokens * charsPerToken
    (flush overlapChars
      ((splitSentences text).foldl (addSentence maxChars overlapChars) {})).yielded

example : chunkText "One two. Three four!  Five" 3 1 =
    [(0, "One two.".toList), (1, "two. Three four!".toList), (2, "our! Five".toList)] := by
  decide +kernel

end Kortex.Chunker
