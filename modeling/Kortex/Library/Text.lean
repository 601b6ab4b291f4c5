import Mathlib.Data.List.DropRight
import Mathlib.Data.List.Infix
import Mathlib.Tactic

/-
This file models the string operations of Python's standard library, and gives the text codec of UTF-8 with
the decoder that replaces invalid bytes.
-/

namespace Kortex

/-- A Python string that UTF-8 can encode is a list of Unicode scalar values. -/
abbrev Str := List Char

instance : Coe String Str := ⟨String.toList⟩

namespace Str

/-- This predicate holds exactly of the characters of `str.isspace`. -/
def isSpace (c : Char) : Bool :=
  let n := c.toNat
  (0x09 ≤ n && n ≤ 0x0d) || (0x1c ≤ n && n ≤ 0x20) || n == 0x85 || n == 0xa0 || n == 0x1680 ||
    (0x2000 ≤ n && n ≤ 0x200a) || n == 0x2028 || n == 0x2029 || n == 0x202f || n == 0x205f ||
    n == 0x3000

def lstrip (s : Str) : Str := s.dropWhile isSpace

def rstrip (s : Str) : Str := s.rdropWhile isSpace

/-- This is `str.strip` without an argument. -/
def strip (s : Str) : Str := rstrip (lstrip s)

/-- This is `str.rstrip` with a set of one character. -/
def rstripChar (c : Char) (s : Str) : Str := s.rdropWhile (· == c)

def startsWith (s start : Str) : Bool := start.isPrefixOf s

/-- This is `str.split` at one character. -/
def split (c : Char) (s : Str) : List Str := s.splitOn c

def join (separator : Str) (parts : List Str) : Str := separator.intercalate parts

/-- This counter skips the rest of a match before it looks for the next one. -/
def countFrom (old : Str) : Nat → Str → Nat
  | _, [] => 0
  | skip + 1, _ :: rest => countFrom old skip rest
  | 0, c :: rest =>
      if old.isPrefixOf (c :: rest) then countFrom old (old.length - 1) rest + 1
      else countFrom old 0 rest

/-- This is `str.count` of a nonempty string. -/
def count (old s : Str) : Nat := countFrom old 0 s

/-- This is `str.replace` of a nonempty string with a count of one. -/
def replaceFirst (old new : Str) : Str → Str
  | [] => []
  | c :: rest =>
      if old.isPrefixOf (c :: rest) then new ++ (c :: rest).drop old.length
      else c :: replaceFirst old new rest

/-- This is the membership test `part in s`. -/
def contains (s part : Str) : Bool := s.tails.any (part.isPrefixOf ·)

def asciiLower (c : Char) : Char :=
  if 'A' ≤ c ∧ c ≤ 'Z' then Char.ofNat (c.toNat + 32) else c

def asciiUpper (c : Char) : Char :=
  if 'a' ≤ c ∧ c ≤ 'z' then Char.ofNat (c.toNat - 32) else c

/-- The decimal digits of a number, the most significant one first. -/
def ofNat (n : Nat) : Str := if n = 0 then "0" else (Nat.digits 10 n).reverse.map Nat.digitChar

def ofInt : Int → Str
  | .ofNat n => ofNat n
  | .negSucc n => '-' :: ofNat (n + 1)

/-- This is the width option of a format specification, aligned to the right. -/
def padLeft (width : Nat) (s : Str) : Str := List.replicate (width - s.length) ' ' ++ s

/-- The thousands separator of a format specification groups three digits. -/
def groupThousands (s : Str) : Str :=
  let rec go : Nat → Str → Str
    | _, [] => []
    | k, c :: rest => if k % 3 = 0 ∧ k ≠ 0 then ',' :: c :: go (k + 1) rest else c :: go (k + 1) rest
  (go 0 s.reverse).reverse

/-- The number of bytes that UTF-8 uses for the string. -/
def utf8Length (s : Str) : Nat := (s.map fun c => c.utf8Size).sum

/-- Python compares strings by the code points of their characters. -/
def le : Str → Str → Bool
  | [], _ => true
  | _ :: _, [] => false
  | c :: s, d :: t => c.toNat < d.toNat || (c.toNat == d.toNat && le s t)

theorem le_total (s t : Str) : le s t = true ∨ le t s = true := by
  induction s generalizing t with
  | nil => exact Or.inl rfl
  | cons c s ih =>
      cases t with
      | nil => exact Or.inr rfl
      | cons d t =>
          rcases Nat.lt_trichotomy c.toNat d.toNat with less | same | greater
          · exact Or.inl (by simp [le, less])
          · rcases ih t with first | second
            · exact Or.inl (by simp [le, same, first])
            · exact Or.inr (by simp [le, same, second])
          · exact Or.inr (by simp [le, greater])

theorem le_trans (s t u : Str) (first : le s t = true) (second : le t u = true) :
    le s u = true := by
  induction s generalizing t u with
  | nil => rfl
  | cons c s ih =>
      cases t with
      | nil => simp [le] at first
      | cons d t =>
          cases u with
          | nil => simp [le] at second
          | cons e u =>
              simp only [le, Bool.or_eq_true, Bool.and_eq_true, decide_eq_true_eq, beq_iff_eq]
                at first second ⊢
              rcases first with less | ⟨same, tail⟩
              · rcases second with less' | ⟨same', _⟩ <;> exact Or.inl (by omega)
              · rcases second with less' | ⟨same', tail'⟩
                · exact Or.inl (by omega)
                · exact Or.inr ⟨by omega, ih t u tail tail'⟩

theorem le_antisymm (s t : Str) (first : le s t = true) (second : le t s = true) : s = t := by
  induction s generalizing t with
  | nil =>
      cases t with
      | nil => rfl
      | cons d t => simp [le] at second
  | cons c s ih =>
      cases t with
      | nil => simp [le] at first
      | cons d t =>
          simp only [le, Bool.or_eq_true, Bool.and_eq_true, decide_eq_true_eq, beq_iff_eq]
            at first second
          have same : c = d := by
            apply Char.ext
            apply UInt32.toNat_inj.mp
            change c.toNat = d.toNat
            omega
          subst same
          rw [ih t (by rcases first with h | h; omega; exact h.2)
            (by rcases second with h | h; omega; exact h.2)]

/-- The order on strings as a relation, for the sorting functions. -/
instance instTrans : IsTrans Str (fun s t => le s t = true) := ⟨le_trans⟩

instance instTotal : Std.Total (fun s t : Str => le s t = true) := ⟨le_total⟩

instance instAntisymm : Std.Antisymm (fun s t : Str => le s t = true) := ⟨le_antisymm⟩

/-- A right strip removes whitespace only. -/
theorem rstrip_append_spaces (s : Str) :
    ∃ spaces : Str, s = rstrip s ++ spaces ∧ ∀ c ∈ spaces, isSpace c = true := by
  refine ⟨s.rtakeWhile isSpace, ?_, fun c present => List.mem_rtakeWhile_imp present⟩
  exact (List.rdropWhile_append_rtakeWhile ..).symm

/-- A string without whitespace at its ends is its own strip. -/
theorem strip_eq_self (s : Str) (first : ∀ c ∈ s.head?, isSpace c = false)
    (last : ∀ c ∈ s.getLast?, isSpace c = false) : strip s = s := by
  have left : lstrip s = s := by
    cases s with
    | nil => rfl
    | cons c s => simp [lstrip, List.dropWhile, first c rfl]
  rw [strip, left, rstrip, List.rdropWhile_eq_self_iff]
  intro nonempty
  simp [last (s.getLast nonempty) (by simp [List.getLast?_eq_getLast_of_ne_nil nonempty])]

theorem strip_sublist (s : Str) : (strip s).Sublist s :=
  (List.rdropWhile_prefix isSpace (lstrip s)).sublist.trans (List.dropWhile_sublist _)

/-- A stripped string does not end with whitespace. -/
theorem strip_last (s : Str) (c : Char) (last : (strip s).getLast? = some c) : isSpace c = false := by
  have filled : strip s ≠ [] := by
    rintro none
    rw [none] at last
    exact absurd last (by simp)
  have other := List.rdropWhile_last_not isSpace (lstrip s) filled
  rw [List.getLast?_eq_some_getLast filled, Option.some.injEq] at last
  rw [← last]
  exact Bool.not_eq_true _ ▸ other

end Str
end Kortex

namespace Kortex.Utf8

/-- This is `s.encode("utf-8")`. -/
def encode (s : Str) : List UInt8 := s.flatMap String.utf8EncodeChar

def isContinuation (b : UInt8) : Bool := 0x80 ≤ b && b ≤ 0xbf

/-- The second byte of a sequence depends on the first one, which excludes overlong forms,
surrogates and values past the last code point. -/
def isSecond (first next : UInt8) : Bool :=
  if first = 0xe0 then 0xa0 ≤ next && next ≤ 0xbf
  else if first = 0xed then 0x80 ≤ next && next ≤ 0x9f
  else if first = 0xf0 then 0x90 ≤ next && next ≤ 0xbf
  else if first = 0xf4 then 0x80 ≤ next && next ≤ 0x8f
  else 0xc2 ≤ first && first ≤ 0xf4 && isContinuation next

/-- One error covers the longest start of a sequence, and one byte where there is none. -/
def errorLength : List UInt8 → Nat
  | first :: next :: rest =>
      if !isSecond first next then 1
      else if 0xf0 ≤ first && rest.head?.any isContinuation then 3
      else 2
  | _ => 1

def replacement : Char := Char.ofNat 0xfffd

/-- Every round reads one character or one error. -/
def decodeRounds : Nat → List UInt8 → Str
  | 0, _ => []
  | _, [] => []
  | rounds + 1, bytes =>
      match bytes.toByteArray.utf8DecodeChar? 0 with
      | some c => c :: decodeRounds rounds (bytes.drop c.utf8Size)
      | none => replacement :: decodeRounds rounds (bytes.drop (errorLength bytes))

/-- This is `body.decode("utf-8", errors="replace")`. -/
def decode (bytes : List UInt8) : Str := decodeRounds bytes.length bytes

def Valid (bytes : List UInt8) : Prop := ∃ s, encode s = bytes

theorem decodeRounds_encode (s : Str) (rounds : Nat) (enough : (encode s).length ≤ rounds) :
    decodeRounds rounds (encode s) = s := by
  induction s generalizing rounds with
  | nil => cases rounds <;> rfl
  | cons c s ih =>
      have split : encode (c :: s) = String.utf8EncodeChar c ++ encode s := rfl
      have size := String.length_utf8EncodeChar c
      have some_byte := c.utf8Size_pos
      rw [split, List.length_append, size] at enough
      obtain ⟨rounds, rfl⟩ : ∃ n, rounds = n + 1 := ⟨rounds - 1, by omega⟩
      obtain ⟨b, rest, bytes⟩ : ∃ b rest, String.utf8EncodeChar c ++ encode s = b :: rest := by
        cases encoded : String.utf8EncodeChar c with
        | nil => simp [encoded] at size; omega
        | cons b rest => exact ⟨b, rest ++ encode s, rfl⟩
      have read : (b :: rest).toByteArray.utf8DecodeChar? 0 = some c := by
        rw [← bytes, List.toByteArray_append]
        exact ByteArray.utf8DecodeChar?_utf8EncodeChar_append
      have left : (b :: rest).drop c.utf8Size = encode s := by
        rw [← bytes, ← size, List.drop_left]
      rw [split, bytes]
      simp only [decodeRounds, read, left]
      rw [ih rounds (by omega)]

/-- The decoder inverts the encoder. -/
@[simp] theorem decode_encode (s : Str) : decode (encode s) = s :=
  decodeRounds_encode s _ le_rfl

/-- The codec keeps exactly the bytes that are UTF-8. -/
theorem encode_decode_iff (bytes : List UInt8) : encode (decode bytes) = bytes ↔ Valid bytes := by
  constructor
  · intro kept
    exact ⟨decode bytes, kept⟩
  · rintro ⟨s, rfl⟩
    rw [decode_encode]

theorem encode_injective (s s' : Str) (same : encode s = encode s') : s = s' := by
  rw [← decode_encode s, same, decode_encode]

end Kortex.Utf8
