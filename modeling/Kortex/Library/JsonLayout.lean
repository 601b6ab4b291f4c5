import Kortex.Library.JsonDecode

/-
This file models the layouts of `json.dumps`: the flat one and those with an indent.
-/

namespace Kortex.Json

/-- A layout is the whitespace that the encoder writes between the tokens, by the level of the brackets. -/
structure Layout where
  style : Style
  /-- This follows an opening bracket. -/
  opening : Nat → Str
  /-- This follows a comma. -/
  afterComma : Nat → Str
  /-- This follows a colon. -/
  afterColon : Str
  /-- This precedes a closing bracket. -/
  closing : Nat → Str
  spaces : ∀ level, ∀ c ∈ opening level ++ afterComma level ++ afterColon ++ closing level,
    isWhitespace c = true

mutual
/-- This is `json.dumps` at a level of the brackets. -/
def encode (layout : Layout) (level : Nat) : Json → Str
  | .null => "null"
  | .bool true => "true"
  | .bool false => "false"
  | .int i => Str.ofInt i
  | .float x => x.text
  | .str s => quote layout.style s
  | .arr [] => "[]"
  | .arr (item :: rest) => '[' :: (layout.opening (level + 1) ++
      (encode layout (level + 1) item ++ encodeItems layout level rest))
  | .obj [] => "\x7b\x7d"
  | .obj ((key, value) :: rest) => '{' :: (layout.opening (level + 1) ++ (quote layout.style key ++
      (':' :: (layout.afterColon ++ (encode layout (level + 1) value ++ encodeMembers layout level rest)))))

/-- The encoder writes each further item after a comma and then closes the array. -/
def encodeItems (layout : Layout) (level : Nat) : List Json → Str
  | [] => layout.closing level ++ "]"
  | item :: rest => ',' :: (layout.afterComma (level + 1) ++
      (encode layout (level + 1) item ++ encodeItems layout level rest))

/-- The encoder writes each further member after a comma and then closes the object. -/
def encodeMembers (layout : Layout) (level : Nat) : List (Str × Json) → Str
  | [] => layout.closing level ++ "\x7d"
  | (key, value) :: rest => ',' :: (layout.afterComma (level + 1) ++ (quote layout.style key ++
      (':' :: (layout.afterColon ++ (encode layout (level + 1) value ++ encodeMembers layout level rest)))))
end

/-- The compact separators have no space. -/
def gap (style : Style) : Str := if style.compact then [] else [' ']

theorem gap_spaces (style : Style) : ∀ c ∈ [] ++ gap style ++ gap style ++ [], isWhitespace c = true := by
  obtain ⟨ensureAscii, compact⟩ := style
  cases compact <;> simp [gap, isWhitespace]

/-- This is the layout of `json.dumps` without an indent. -/
def flat (style : Style) : Layout where
  style
  opening _ := []
  afterComma _ := gap style
  afterColon := gap style
  closing _ := []
  spaces _ := gap_spaces style

/-- The encoder starts a new line with the indent of the level. -/
def newline (indent level : Nat) : Str := '\n' :: List.replicate (indent * level) ' '

theorem newline_spaces (indent level : Nat) :
    ∀ c ∈ newline indent level ++ newline indent level ++ [' '] ++ newline indent level,
      isWhitespace c = true := by
  have line : ∀ c ∈ newline indent level, isWhitespace c = true := by
    intro c inside
    rcases List.mem_cons.mp inside with rfl | blank
    · rfl
    · rw [List.eq_of_mem_replicate blank]
      rfl
  intro c inside
  simp only [List.mem_append, List.mem_singleton] at inside
  rcases inside with ((first | second) | rfl) | last
  · exact line c first
  · exact line c second
  · rfl
  · exact line c last

/-- This is the layout of `json.dumps` with an indent. -/
def indented (ensureAscii : Bool) (indent : Nat) : Layout where
  style := ⟨ensureAscii, false⟩
  opening := newline indent
  afterComma := newline indent
  afterColon := [' ']
  closing := newline indent
  spaces := newline_spaces indent

theorem itemSeparator_eq (style : Style) (level : Nat) :
    style.itemSeparator = ',' :: (flat style).afterComma level := by
  obtain ⟨ensureAscii, compact⟩ := style
  cases compact <;> rfl

theorem keySeparator_eq (style : Style) : style.keySeparator = ':' :: (flat style).afterColon := by
  obtain ⟨ensureAscii, compact⟩ := style
  cases compact <;> rfl

mutual
/-- The encoder without an indent has the flat layout. -/
theorem encode_flat (style : Style) : ∀ (level : Nat) (value : Json),
    encode (flat style) level value = dumps style value
  | _, .null | _, .bool true | _, .bool false | _, .int _ | _, .float _ | _, .str _ | _, .arr []
  | _, .obj [] => rfl
  | level, .arr (item :: rest) => by
      rw [encode, dumps, encode_flat style (level + 1) item, encodeItems_flat style level rest]
      rfl
  | level, .obj ((key, value) :: rest) => by
      rw [encode, dumps, encode_flat style (level + 1) value, encodeMembers_flat style level rest,
        keySeparator_eq]
      rfl

theorem encodeItems_flat (style : Style) : ∀ (level : Nat) (items : List Json),
    encodeItems (flat style) level items = dumpsItems style items
  | _, [] => rfl
  | level, item :: rest => by
      rw [encodeItems, dumpsItems, encode_flat style (level + 1) item, encodeItems_flat style level rest,
        itemSeparator_eq style (level + 1)]
      rfl

theorem encodeMembers_flat (style : Style) : ∀ (level : Nat) (members : List (Str × Json)),
    encodeMembers (flat style) level members = dumpsMembers style members
  | _, [] => rfl
  | level, (key, value) :: rest => by
      rw [encodeMembers, dumpsMembers, encode_flat style (level + 1) value,
        encodeMembers_flat style level rest, itemSeparator_eq style (level + 1), keySeparator_eq]
      rfl
end

end Kortex.Json
