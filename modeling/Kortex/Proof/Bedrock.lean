import Kortex.Library.JsonEmbedded
import Kortex.Library.Strip
import Kortex.Model.Bedrock

/-
This file proves that an object is found in the prose or the fence that a model puts around it.
-/

namespace Kortex.Bedrock

open Harnesses (Decoder maxDigits)
open Json (Layout Proper Short encode)

/-- The prose before an object has no opening brace, and it starts as no value with parts does. -/
structure Prose (before : Str) : Prop where
  free : '{' ∉ before
  speaks : ∀ c ∈ (Str.lstrip before).head?, Json.speaks c = true

/-- These objects are read back from what is written. -/
structure Written (decoder : Decoder) (members : JsonDict) : Prop where
  proper : Proper decoder.round (.obj members)
  short : Short maxDigits (.obj members)

variable {decoder : Decoder} {members : JsonDict}

theorem rstrip_subset (s : Str) : Str.rstrip s ⊆ s := (List.rdropWhile_prefix Str.isSpace s).subset

theorem lstrip_subset (s : Str) : Str.lstrip s ⊆ s := (List.dropWhile_sublist Str.isSpace).subset

theorem encode_ends (layout : Layout) (members : JsonDict) :
    encode layout 0 (.obj members) ≠ [] ∧
      (∀ c ∈ (encode layout 0 (.obj members)).head?, Str.isSpace c = false) ∧
      ∀ c ∈ (encode layout 0 (.obj members)).getLast?, Str.isSpace c = false := by
  obtain ⟨body, text⟩ := Json.encode_obj_head layout 0 members
  refine ⟨by rw [text]; exact List.cons_ne_nil _ _, ?_, ?_⟩
  · intro c first
    rw [text] at first
    rw [← Option.some.inj first]
    decide
  · intro c last
    rw [Json.encode_obj_last] at last
    rw [← Option.some.inj last]
    decide

theorem decode_encode (layout : Layout) (written : Written decoder members) :
    decode decoder (encode layout 0 (.obj members)) = some (some (.obj members)) := by
  have none (c : Char) (inside : c ∈ ([] : Str)) : Json.isWhitespace c = true :=
    absurd inside List.not_mem_nil
  have short := Json.overlong_encode layout (.obj members) written.proper written.short [] none
  have read := Json.loads_encode layout (.obj members) written.proper [] none
  rw [List.append_nil] at short read
  rw [decode, short, read]
  rfl

theorem braced_around (layout : Layout) (members : JsonDict) (before after : Str) (free : '{' ∉ before)
    (free' : '}' ∉ after) : braced (before ++ encode layout 0 (.obj members) ++ after) =
      some (encode layout 0 (.obj members)) := by
  obtain ⟨body, text⟩ := Json.encode_obj_head layout 0 members
  have front : (before ++ encode layout 0 (.obj members) ++ after).dropWhile (· != '{') =
      encode layout 0 (.obj members) ++ after := by
    have others : ∀ c ∈ before, (c != '{') = true := by
      intro c inside
      exact bne_iff_ne.mpr fun same => free (same ▸ inside)
    rw [List.append_assoc, List.dropWhile_append_of_pos others, text, List.cons_append,
      List.dropWhile_cons_of_neg (by simp)]
  have back : (encode layout 0 (.obj members) ++ after).rdropWhile (· != '}') =
      encode layout 0 (.obj members) := by
    have others : ∀ c ∈ after.reverse, (c != '}') = true := by
      intro c inside
      exact bne_iff_ne.mpr fun same => free' (same ▸ List.mem_reverse.mp inside)
    have last := Json.encode_obj_last layout 0 members
    rw [List.rdropWhile, List.reverse_append, List.dropWhile_append_of_pos others]
    rw [← List.head?_reverse] at last
    obtain ⟨rest, whole⟩ := List.head?_eq_some_iff.mp last
    rw [whole, List.dropWhile_cons_of_neg (by simp), ← whole, List.reverse_reverse]
  rw [braced, front, back, text]

/-- An object that stands between prose is found, also when nothing is around it. -/
theorem recover_around (layout : Layout) (written : Written decoder members) (before after : Str)
    (prose : Prose before) (free : '}' ∉ after) :
    recover decoder (Str.strip (before ++ encode layout 0 (.obj members) ++ after)) =
      some (some members) := by
  obtain ⟨filled, first, last⟩ := encode_ends layout members
  rw [Str.strip_around before _ after filled first last]
  have found := braced_around layout members (Str.lstrip before) (Str.rstrip after)
    (fun inside => prose.free (lstrip_subset before inside)) (fun inside => free (rstrip_subset after inside))
  have own := decode_encode layout written
  have object : '{' ∈ Str.lstrip before ++ encode layout 0 (.obj members) ++ Str.rstrip after := by
    obtain ⟨body, text⟩ := Json.encode_obj_head layout 0 members
    simp [text]
  cases front : Str.lstrip before with
  | nil =>
      rw [front, List.nil_append] at found
      rw [List.nil_append]
      have short := Json.overlongValue_encode_obj maxDigits layout
        ((encode layout 0 (.obj members) ++ Str.rstrip after).length + 1) 0 members (Str.rstrip after)
        written.proper written.short (by rw [List.length_append]; omega)
      have read := Json.parseValue_encode_obj layout
        ((encode layout 0 (.obj members) ++ Str.rstrip after).length + 1) 0 members (Str.rstrip after)
        written.proper (by rw [List.length_append]; omega)
      have decoded : decode decoder (encode layout 0 (.obj members) ++ Str.rstrip after) =
          some (if Json.skipWhitespace (Str.rstrip after) = [] then some (.obj members) else none) := by
        rw [decode, Json.overlong, Json.skipWhitespace_encode, short, Json.loads,
          Json.skipWhitespace_encode, read]
        rfl
      rw [recover, decoded]
      split_ifs with blank
      · rfl
      · simp only [found, own]
        rfl
  | cons c rest =>
      have speech : Json.speaks c = true := prose.speaks c (by rw [front]; rfl)
      have visible : Json.isWhitespace c = false := by
        by_contra space
        have other : Str.isSpace c = false := by
          have start := List.head?_dropWhile_not Str.isSpace before
          rw [← Str.lstrip, front] at start
          exact start
        rw [Json.isSpace_of_isWhitespace c (by simpa using space)] at other
        cases other
      rw [front] at found object
      simp only [List.cons_append] at found object ⊢
      have decoded : decode decoder (c :: (rest ++ encode layout 0 (.obj members) ++ Str.rstrip after)) =
          some none := by
        rw [decode, Json.overlong_speech maxDigits c _ speech visible,
          Json.loads_speech c _ speech visible object]
        rfl
      rw [recover, decoded]
      simp only [found, own]
      rfl

/-! A fence ends at the next one. -/

theorem backtick_of_fence (s : Str) (inside : fence <:+: s) : '`' ∈ s := inside.subset List.mem_cons_self

theorem beforeFence_append (s rest : Str) (free : ¬ fence <:+: s) (last : ∀ c ∈ s.getLast?, c ≠ '`') :
    beforeFence (s ++ fence ++ rest) = s := by
  induction s with
  | nil => rfl
  | cons c s ih =>
      have later : ¬ fence <:+: s := fun inside => free (List.infix_cons inside)
      have end' : ∀ d ∈ s.getLast?, d ≠ '`' := by
        intro d final
        apply last d
        rw [List.getLast?_cons, Option.mem_def.mp final]
        rfl
      have other : Str.startsWith (c :: s ++ fence ++ rest) fence = false := by
        by_contra starts
        have start : fence <+: c :: s ++ fence ++ rest :=
          List.isPrefixOf_iff_prefix.mp (by simpa [Str.startsWith] using starts)
        have own : c :: s <+: c :: s ++ fence ++ rest := by
          rw [List.append_assoc]
          exact List.prefix_append _ _
        rcases List.prefix_or_prefix_of_prefix start own with within | short
        · exact free within.isInfix
        · -- All characters of a part of the fence are backticks.
          obtain ⟨d, final⟩ : ∃ d, (c :: s).getLast? = some d := ⟨_, List.getLast?_cons⟩
          have inside := short.subset (List.mem_of_getLast? final)
          exact last d final (by simpa [fence] using inside)
      have unfolded : beforeFence (c :: s ++ fence ++ rest) =
          if Str.startsWith (c :: s ++ fence ++ rest) fence then [] else
            c :: beforeFence (s ++ fence ++ rest) := rfl
      rw [unfolded, other, ih later end']
      rfl

/-- The object is the only part of the fenced text that may have a fence. -/
theorem fence_free (layout : Layout) (members : JsonDict) (front after : Str) (plain : '`' ∉ front)
    (plain' : '`' ∉ after) (free : ¬ fence <:+: encode layout 0 (.obj members)) :
    ¬ fence <:+: front ++ encode layout 0 (.obj members) ++ after := by
  obtain ⟨body, text⟩ := Json.encode_obj_head layout 0 members
  obtain ⟨mid, whole⟩ := List.getLast?_eq_some_iff.mp (Json.encode_obj_last layout 0 members)
  have some : fence ≠ [] := List.cons_ne_nil _ _
  intro inside
  rw [whole, ← List.append_assoc, List.append_assoc (front ++ mid), List.singleton_append,
    Split.infix_append_separator fence some (by decide)] at inside
  rcases inside with before | behind
  · cases mid with
    | nil =>
        rw [whole] at text
        exact absurd (List.cons.inj text).1 (by decide)
    | cons c mid =>
        rw [whole, List.cons_append] at text
        obtain ⟨rfl, -⟩ := List.cons.inj text
        rw [Split.infix_append_separator fence some (by decide)] at before
        rcases before with early | within
        · exact plain (backtick_of_fence front early)
        · apply free
          rw [whole]
          exact within.trans ⟨['{'], ['}'], by simp⟩
  · exact plain' (backtick_of_fence after behind)

theorem candidate_fenced (layout : Layout) (members : JsonDict) (lead tag gap after rest : Str)
    (blank : ∀ c ∈ lead, Str.isSpace c = true) (tagged : tag = [] ∨ tag = "json")
    (spaces : ∀ c ∈ gap, Str.isSpace c = true) (plain : '`' ∉ after)
    (free : ¬ fence <:+: encode layout 0 (.obj members)) :
    Str.strip (lead ++ fence ++ tag ++ gap ++ encode layout 0 (.obj members) ++ after ++ fence ++ rest) =
        fence ++ (tag ++ gap ++ encode layout 0 (.obj members) ++ after ++ fence ++ Str.rstrip rest) ∧
      removePrefix "json" (beforeFence (tag ++ gap ++ encode layout 0 (.obj members) ++ after ++ fence ++
        Str.rstrip rest)) = gap ++ encode layout 0 (.obj members) ++ after := by
  have gapPlain : '`' ∉ gap := by
    intro inside
    exact absurd (spaces _ inside) (by decide)
  have frontPlain : '`' ∉ tag ++ gap := by
    rw [List.mem_append, not_or]
    refine ⟨?_, gapPlain⟩
    rcases tagged with rfl | rfl
    · exact List.not_mem_nil
    · decide
  constructor
  · have whole : lead ++ fence ++ tag ++ gap ++ encode layout 0 (.obj members) ++ after ++ fence ++ rest =
        lead ++ (fence ++ (tag ++ gap ++ encode layout 0 (.obj members) ++ after ++ fence)) ++ rest := by
      simp only [List.append_assoc]
    rw [whole, Str.strip_around lead _ rest]
    · rw [Str.lstrip, List.dropWhile_eq_nil_iff.mpr blank]
      simp only [List.nil_append, List.append_assoc]
    · exact List.append_ne_nil_of_left_ne_nil (List.cons_ne_nil _ _) _
    · intro c first
      rw [← Option.some.inj first]
      decide
    · intro c last
      rw [← List.append_assoc, List.getLast?_append] at last
      rw [← Option.some.inj last]
      decide
  · have last : ∀ c ∈ (tag ++ gap ++ encode layout 0 (.obj members) ++ after).getLast?, c ≠ '`' := by
      intro c final
      rw [List.getLast?_append] at final
      cases tail : after.getLast? with
      | none =>
          rw [tail, Option.none_or, List.getLast?_append, Json.encode_obj_last] at final
          rw [← Option.some.inj final]
          decide
      | some d =>
          rw [tail] at final
          rw [← Option.some.inj final]
          exact fun same => plain (same ▸ List.mem_of_getLast? tail)
    have cut := beforeFence_append (tag ++ gap ++ encode layout 0 (.obj members) ++ after) (Str.rstrip rest)
      (fence_free layout members (tag ++ gap) after frontPlain plain free) last
    rw [cut]
    rcases tagged with rfl | rfl
    · have other : Str.startsWith (gap ++ encode layout 0 (.obj members) ++ after) "json" = false := by
        obtain ⟨body, text⟩ := Json.encode_obj_head layout 0 members
        cases gap with
        | nil =>
            rw [text]
            rfl
        | cons c gap =>
            have different : ('j' == c) = false := by
              apply beq_false_of_ne
              rintro rfl
              exact absurd (spaces _ List.mem_cons_self) (by decide)
            change List.isPrefixOf ('j' :: "son".toList) (c :: _) = false
            rw [List.isPrefixOf, different, Bool.false_and]
      rw [List.nil_append, removePrefix, other]
      rfl
    · rfl

theorem startsWith_fence (before rest : Str) (other : Str.startsWith before fence = false) :
    Str.startsWith (before ++ '{' :: rest) fence = false := by
  by_contra starts
  have start : fence <+: before ++ '{' :: rest :=
    List.isPrefixOf_iff_prefix.mp (by simpa [Str.startsWith] using starts)
  rcases List.prefix_or_prefix_of_prefix start (List.prefix_append before _) with within | ⟨more, whole⟩
  · rw [Str.startsWith, List.isPrefixOf_iff_prefix.mpr within] at other
    cases other
  · rw [← whole, List.prefix_append_right_inj] at start
    cases more with
    | nil =>
        rw [List.append_nil] at whole
        rw [whole] at other
        exact absurd other (by decide)
    | cons c more =>
        have brace : c ∈ fence := by
          rw [← whole]
          exact List.mem_append_right _ List.mem_cons_self
        rw [(List.cons_prefix_cons.mp start).1] at brace
        exact absurd brace (by decide)

/-! What is found stands in the text. -/

theorem decode_some (s : Str) (value : Option Json) (decoded : decode decoder s = some value) :
    Json.loads decoder.round s = value := by
  rw [decode] at decoded
  split at decoded
  · cases decoded
  · exact Option.some.inj decoded

theorem asDict_some (value : Json) (members : JsonDict) (dict : asDict value = some members) :
    value = .obj members := by
  cases value with
  | obj own => exact congrArg Value.obj (Option.some.inj dict)
  | _ => cases dict

theorem braced_infix (candidate part : Str) (found : braced candidate = some part) : part <:+: candidate := by
  rw [braced] at found
  split at found
  · cases found
  · rw [← Option.some.inj found]
    exact (List.rdropWhile_prefix _ _).isInfix.trans (List.dropWhile_suffix _).isInfix

theorem recover_sound (candidate : Str) (found : recover decoder candidate = some (some members)) :
    ∃ part, part <:+: candidate ∧ Json.loads decoder.round part = some (.obj members) := by
  rw [recover] at found
  split at found
  · cases found
  · next parsed decoded =>
      refine ⟨candidate, List.infix_rfl, ?_⟩
      rw [decode_some _ _ decoded, asDict_some parsed members (Option.some.inj found)]
  · split at found
    · cases found
    · next part inner =>
        refine ⟨part, braced_infix candidate part inner, ?_⟩
        obtain ⟨parsed, decoded, dict⟩ := Option.map_eq_some_iff.mp found
        obtain ⟨value, rfl, own⟩ := Option.bind_eq_some_iff.mp dict
        rw [decode_some _ _ decoded, asDict_some value members own]

theorem beforeFence_front (s : Str) : beforeFence s <+: s := by
  induction s with
  | nil => exact List.nil_prefix
  | cons c s ih =>
      rw [beforeFence]
      split
      · exact List.nil_prefix
      · exact List.cons_prefix_cons.mpr ⟨rfl, ih⟩

theorem removePrefix_suffix (word s : Str) : removePrefix word s <:+ s := by
  rw [removePrefix]
  split
  · exact List.drop_suffix _ _
  · exact List.suffix_rfl

/-- The object is found in prose and in a fence, and what is found stands in the text. -/
theorem extractJson_finds (decoder : Decoder) :
    (∀ (layout : Layout) (members : JsonDict), Written decoder members →
      (∀ before after : Str, Prose before → '}' ∉ after →
        Str.startsWith (Str.lstrip before) fence = false →
        extractJson decoder (before ++ encode layout 0 (.obj members) ++ after) = some (some members)) ∧
      ∀ lead tag gap after rest : Str, (∀ c ∈ lead, Str.isSpace c = true) → (tag = [] ∨ tag = "json") →
        (∀ c ∈ gap, Str.isSpace c = true) → '`' ∉ after → '}' ∉ after →
        ¬ fence <:+: encode layout 0 (.obj members) →
        extractJson decoder (lead ++ fence ++ tag ++ gap ++ encode layout 0 (.obj members) ++ after ++
          fence ++ rest) = some (some members)) ∧
      ∀ (text : Str) (members : JsonDict), extractJson decoder text = some (some members) →
        ∃ part, part <:+: text ∧ Json.loads decoder.round part = some (.obj members) := by
  refine ⟨fun layout members written => ⟨?_, ?_⟩, ?_⟩
  · intro before after prose free unfenced
    obtain ⟨filled, first, last⟩ := encode_ends layout members
    have other : Str.startsWith (Str.strip (before ++ encode layout 0 (.obj members) ++ after)) fence =
        false := by
      obtain ⟨body, text⟩ := Json.encode_obj_head layout 0 members
      rw [Str.strip_around before _ after filled first last, text, List.append_assoc]
      exact startsWith_fence _ _ unfenced
    have nonempty : before ++ encode layout 0 (.obj members) ++ after ≠ [] := by
      simp [filled]
    rw [extractJson, if_neg nonempty]
    dsimp only
    rw [other]
    exact recover_around layout written before after prose free
  · intro lead tag gap after rest blank tagged spaces plain free unfenced
    obtain ⟨candidate, inner⟩ := candidate_fenced layout members lead tag gap after rest blank tagged spaces
      plain unfenced
    have nonempty : lead ++ fence ++ tag ++ gap ++ encode layout 0 (.obj members) ++ after ++ fence ++ rest ≠
        [] := by
      simp [fence]
    have starts (s : Str) : Str.startsWith (fence ++ s) fence = true :=
      List.isPrefixOf_iff_prefix.mpr (List.prefix_append _ _)
    have prose : Prose gap := by
      refine ⟨fun inside => absurd (spaces _ inside) (by decide), fun c first => ?_⟩
      rw [Str.lstrip, List.dropWhile_eq_nil_iff.mpr spaces] at first
      cases first
    have dropped (s : Str) : (fence ++ s).drop 3 = s := rfl
    rw [extractJson, if_neg nonempty, candidate]
    dsimp only
    rw [if_pos (starts _), dropped, inner]
    exact recover_around layout written gap after prose free
  · intro text members found
    rw [extractJson] at found
    split at found
    · cases found
    · dsimp only at found
      split at found
      · obtain ⟨part, within, loads⟩ := recover_sound _ found
        refine ⟨part, within.trans ?_, loads⟩
        exact (Str.strip_infix_self _).trans ((removePrefix_suffix _ _).isInfix.trans
          ((beforeFence_front _).isInfix.trans ((List.drop_suffix 3 _).isInfix.trans
            (Str.strip_infix_self text))))
      · obtain ⟨part, within, loads⟩ := recover_sound _ found
        exact ⟨part, within.trans (Str.strip_infix_self text), loads⟩

def sampleDecoder : Decoder := ⟨.finite, fun _ _ _ => rfl, fun _ => []⟩

def sampleMembers : JsonDict := [("correct".toList, .bool true)]

theorem extractJson_finds_sample :
    extractJson sampleDecoder ("Sure! Here you go:\n".toList ++
        encode (Json.flat ⟨true, false⟩) 0 (.obj sampleMembers) ++ ".".toList) = some (some sampleMembers) ∧
      extractJson sampleDecoder ([] ++ fence ++ "json".toList ++ "\n".toList ++
        encode (Json.flat ⟨true, false⟩) 0 (.obj sampleMembers) ++ "\n".toList ++ fence ++ []) =
        some (some sampleMembers) := by
  have written : Written sampleDecoder sampleMembers := ⟨⟨by decide, trivial, trivial⟩, ⟨trivial, trivial⟩⟩
  have prose : Prose "Sure! Here you go:\n" := by
    refine ⟨by decide, fun c first => ?_⟩
    have letter : 'S' = c := Option.some.inj first
    rw [← letter]
    rfl
  have gap : ∀ c ∈ "\n".toList, Str.isSpace c = true := List.forall_mem_singleton.mpr rfl
  have found := (extractJson_finds sampleDecoder).1 (Json.flat ⟨true, false⟩) sampleMembers written
  constructor
  · exact found.1 _ _ prose (by decide) (by decide)
  · exact found.2 _ _ _ _ _ (by simp) (Or.inr rfl) gap (by decide) (by decide) (by decide +kernel)

end Kortex.Bedrock
