import Kortex.Model.JudgeOutput
import Kortex.Proof.ConflictCoverage
import Kortex.Proof.StepOrder

/-
This file proves for which payloads of a model the conflict judge returns usable verdicts.
-/

namespace Kortex

namespace PyFloat

/-- The float lies between two floats; NaN lies nowhere. -/
def Within (least greatest x : PyFloat) : Prop := x.ge least = true ∧ greatest.ge x = true

theorem ge_iff (a b : PyFloat) :
    ge a b = true ↔ ∃ x y, a.rank = some x ∧ b.rank = some y ∧ toLex y ≤ toLex x := by
  rw [ge]
  cases a.rank with
  | none => simp
  | some x =>
      cases b.rank with
      | none => simp
      | some y => simpa using rankLe_iff y x

/-- Of two numbers one is below the other or it is not. -/
theorem ge_of_not_lt (a b : PyFloat) (number : a ≠ nan) (number' : b ≠ nan) (above : lt a b = false) :
    ge a b = true := by
  obtain ⟨x, left⟩ := rank_of_ne_nan a number
  obtain ⟨y, right⟩ := rank_of_ne_nan b number'
  rw [← Bool.not_eq_true, lt_iff] at above
  exact (ge_iff a b).mpr ⟨x, y, left, right, not_lt.mp fun less => above ⟨x, y, left, right, less⟩⟩

theorem ne_nan_of_ge (a b : PyFloat) (above : ge a b = true) : a ≠ nan ∧ b ≠ nan := by
  obtain ⟨x, y, left, right, _⟩ := (ge_iff a b).mp above
  constructor
  · intro nan
    rw [nan] at left
    exact absurd left (by simp [rank])
  · intro nan
    rw [nan] at right
    exact absurd right (by simp [rank])

theorem ge_trans (a b c : PyFloat) (first : ge a b = true) (second : ge b c = true) : ge a c = true := by
  obtain ⟨x, y, left, right, less⟩ := (ge_iff a b).mp first
  obtain ⟨y', z, same, last, below⟩ := (ge_iff b c).mp second
  obtain rfl := Option.some.inj (right.symm.trans same)
  exact (ge_iff a c).mpr ⟨x, z, left, last, below.trans less⟩

end PyFloat

namespace ConflictJudge

open PyFloat

variable {c : Conversions} {existing : List ConflictCandidate} {minConfidence : PyFloat}

/-! The confidence of a verdict. -/

theorem zero_ne_nan : Retrieval.zeroPointZero ≠ nan := by decide

theorem one_ne_nan : onePointZero ≠ nan := by decide

/-- A confidence that is a number from the least one on is within the bounds when it is clamped. -/
theorem clamp_within (bounds : Within Retrieval.zeroPointZero onePointZero minConfidence)
    (x : PyFloat) (number : x ≠ nan) (enough : x.lt minConfidence = false) :
    Within minConfidence onePointZero (clamp x) := by
  have least := (ne_nan_of_ge _ _ bounds.1).1
  have above := ge_of_not_lt x minConfidence number least enough
  have raised : ge (if Retrieval.zeroPointZero.lt x then x else Retrieval.zeroPointZero)
      minConfidence = true := by
    split
    · exact above
    · rename_i low
      exact ge_trans _ x _ (ge_of_not_lt _ _ zero_ne_nan number (by simpa using low)) above
  simp only [clamp]
  generalize (if Retrieval.zeroPointZero.lt x = true then x else Retrieval.zeroPointZero) = r at raised ⊢
  split
  · rename_i low
    refine ⟨raised, ?_⟩
    obtain ⟨a, b, left, right, less⟩ := (lt_iff _ _).mp low
    exact (ge_iff _ _).mpr ⟨b, a, right, left, le_of_lt less⟩
  · exact ⟨bounds.2, ge_of_not_lt _ _ one_ne_nan one_ne_nan (by decide +kernel)⟩

/-- NaN is clamped to zero. -/
theorem clamp_nan_within (bounds : Within Retrieval.zeroPointZero onePointZero minConfidence) :
    Within minConfidence onePointZero (clamp nan) ↔
      Retrieval.zeroPointZero.lt minConfidence = false := by
  have zero : clamp nan = Retrieval.zeroPointZero := by decide +kernel
  have least := (ne_nan_of_ge _ _ bounds.1).1
  rw [zero]
  constructor
  · intro within
    obtain ⟨x, y, left, right, below⟩ := (ge_iff _ _).mp within.1
    rw [← Bool.not_eq_true, lt_iff]
    intro ⟨x', y', left', right', less⟩
    obtain rfl := Option.some.inj (left.symm.trans left')
    obtain rfl := Option.some.inj (right.symm.trans right')
    exact absurd less (not_lt.mpr below)
  · intro above
    exact ⟨ge_of_not_lt _ _ zero_ne_nan least above,
      ge_trans _ minConfidence _ bounds.2 bounds.1⟩

/-! The rows of a payload. -/

/-- This is the value of the key `verdicts`. -/
def verdictsOf (payload : Option JsonDict) : Json :=
  (payload.bind fun members => Dict.get? members "verdicts".toList).getD .null

def confidenceValue (members : JsonDict) : Json :=
  (Dict.get? members "confidence".toList).getD (.float Retrieval.zeroPointZero)

def reasonValue (members : JsonDict) : Json := (Dict.get? members "reason".toList).getD (.str [])

def relationIn (members : JsonDict) : Option ConflictRelation :=
  relationOf (Dict.get? members "relation".toList)

def candidateIn (existing : List ConflictCandidate) (members : JsonDict) : Option ConflictCandidate :=
  candidateAt existing (Dict.get? members "index".toList)

/-- A loop over the value does not raise. -/
def iterates : Json → Bool
  | .arr _ | .str _ | .obj _ => true
  | _ => false

variable (c existing minConfidence) in
/-- The row names a relation and a candidate, with a confidence that is high enough. -/
structure Accepts (raw : Json) (members : JsonDict) (relation : ConflictRelation)
    (candidate : ConflictCandidate) (confidence : PyFloat) : Prop where
  row : raw = .obj members
  relates : relationIn members = some relation
  names : candidateIn existing members = some candidate
  reads : toFloat c (confidenceValue members) = .ok confidence
  enough : confidence.lt minConfidence = false

variable (c existing minConfidence) in
/-- The confidence of a row that names a relation and a candidate is no integer beyond the floats. If it
is high enough, it is no NaN unless every confidence is, and the reason has a text. -/
structure Fine (raw : Json) : Prop where
  inRange : ∀ members, raw = .obj members →
    (relationIn members).isSome = true →
      (candidateIn existing members).isSome = true →
        ∀ n, confidenceValue members = .int n → n.natAbs < overflowBound
  reason : ∀ members relation candidate confidence,
    Accepts c existing minConfidence raw members relation candidate confidence →
      hasLongInt (reasonValue members) = false
  number : ∀ members relation candidate,
    Accepts c existing minConfidence raw members relation candidate nan →
      Retrieval.zeroPointZero.lt minConfidence = false

theorem toFloat_overflow_iff (value : Json) :
    toFloat c value = .error .overflowError ↔ ∃ n, value = .int n ∧ overflowBound ≤ n.natAbs := by
  cases value with
  | null => simp [toFloat]
  | bool b => simp [toFloat]
  | int n => by_cases large : overflowBound ≤ n.natAbs <;> simp [toFloat, large]
  | float x => simp [toFloat]
  | str s => cases found : c.ofText s <;> simp [toFloat, found]
  | arr items => simp [toFloat]
  | obj members => simp [toFloat]

theorem toStr_isOk_iff (value : Json) :
    (∃ text, toStr c value = .ok text) ↔ hasLongInt value = false := by
  cases value with
  | str s => simp [toStr, hasLongInt]
  | null => simp [toStr, hasLongInt]
  | bool b => simp [toStr, hasLongInt]
  | float x => simp [toStr, hasLongInt]
  | int n => cases long : hasLongInt (.int n) <;> simp [toStr, long]
  | arr items => cases long : hasLongInt (.arr items) <;> simp [toStr, long]
  | obj members => cases long : hasLongInt (.obj members) <;> simp [toStr, long]

/-- This is the verdict on a candidate, unless the confidence or the reason stands against it. -/
def verdictOn (c : Conversions) (minConfidence : PyFloat) (members : JsonDict)
    (relation : ConflictRelation) (candidate : ConflictCandidate) :
    Except PyError (Option ReasonedVerdict) :=
  match toFloat c (confidenceValue members) with
  | .ok confidence =>
      if confidence.lt minConfidence then .ok none
      else (toStr c (reasonValue members)).map fun reason =>
        some ⟨⟨candidate.memoryId, relation, clamp confidence⟩, reason.take 200⟩
  | .error .overflowError => .error .overflowError
  | .error _ => .ok none

theorem readRow_obj (members : JsonDict) : readRow c existing minConfidence (.obj members) =
    match relationIn members, candidateIn existing members with
    | some relation, some candidate => verdictOn c minConfidence members relation candidate
    | _, _ => .ok none := by
  show (match relationIn members, candidateIn existing members with
    | some relation, some candidate => _
    | _, _ => _) = _
  cases relationIn members with
  | none => rfl
  | some relation =>
      cases candidateIn existing members with
      | none => rfl
      | some candidate =>
          show (confidenceOf c members >>= _) = verdictOn c minConfidence members relation candidate
          have read : confidenceOf c members = (match toFloat c (confidenceValue members) with
            | .ok confidence => .ok (some confidence)
            | .error .overflowError => .error .overflowError
            | .error _ => .ok none : Except PyError (Option PyFloat)) := rfl
          rw [read, verdictOn]
          cases toFloat c (confidenceValue members) with
          | ok confidence =>
              by_cases low : confidence.lt minConfidence = true
              · simp only [low, if_true, bind, Except.bind, pure, Except.pure]
              · simp only [low, Bool.false_eq_true, if_false, bind, Except.bind, pure, Except.pure]
                rfl
          | error e =>
              cases e with
              | typeError => rfl
              | valueError => rfl
              | overflowError => rfl

/-- The verdict of an accepted row. -/
theorem readRow_of_accepts {raw : Json} {members : JsonDict} {relation : ConflictRelation}
    {candidate : ConflictCandidate} {confidence : PyFloat}
    (accepts : Accepts c existing minConfidence raw members relation candidate confidence) :
    readRow c existing minConfidence raw = (toStr c (reasonValue members)).map fun reason =>
      some ⟨⟨candidate.memoryId, relation, clamp confidence⟩, reason.take 200⟩ := by
  rw [accepts.row, readRow_obj]
  simp only [accepts.relates, accepts.names, verdictOn, accepts.reads, accepts.enough,
    Bool.false_eq_true, if_false]

/-- A row that is not accepted is skipped, unless its confidence is beyond the floats. -/
theorem readRow_of_not_accepts {raw : Json}
    (refused : ∀ members relation candidate confidence,
      ¬ Accepts c existing minConfidence raw members relation candidate confidence) :
    readRow c existing minConfidence raw = .ok none ∨ ∃ members, raw = .obj members ∧
      (relationIn members).isSome = true ∧
      (candidateIn existing members).isSome = true ∧
      toFloat c (confidenceValue members) = .error .overflowError ∧
      readRow c existing minConfidence raw = .error .overflowError := by
  cases raw with
  | obj members =>
      rw [readRow_obj]
      cases related : relationIn members with
      | none => exact Or.inl rfl
      | some relation =>
          cases named : candidateIn existing members with
          | none => exact Or.inl rfl
          | some candidate =>
              simp only [verdictOn]
              cases read : toFloat c (confidenceValue members) with
              | ok confidence =>
                  by_cases low : confidence.lt minConfidence = true
                  · simp only [low, if_true, true_or]
                  · exact absurd ⟨rfl, related, named, read, eq_false_of_ne_true low⟩
                      (refused members relation candidate confidence)
              | error e =>
                  cases e with
                  | overflowError => exact Or.inr ⟨members, rfl, by rw [related]; rfl, by rw [named]; rfl,
                      read, rfl⟩
                  | typeError => exact Or.inl rfl
                  | valueError => exact Or.inl rfl
  | null => exact Or.inl rfl
  | bool b => exact Or.inl rfl
  | int n => exact Or.inl rfl
  | float x => exact Or.inl rfl
  | str s => exact Or.inl rfl
  | arr items => exact Or.inl rfl

theorem readRow_eq_some (raw : Json) (verdict : ReasonedVerdict) :
    readRow c existing minConfidence raw = .ok (some verdict) ↔
      ∃ members relation candidate confidence reason,
        Accepts c existing minConfidence raw members relation candidate confidence ∧
          toStr c (reasonValue members) = .ok reason ∧
          verdict = ⟨⟨candidate.memoryId, relation, clamp confidence⟩, reason.take 200⟩ := by
  constructor
  · intro read
    by_cases accepted : ∃ members relation candidate confidence,
        Accepts c existing minConfidence raw members relation candidate confidence
    · obtain ⟨members, relation, candidate, confidence, accepts⟩ := accepted
      rw [readRow_of_accepts accepts] at read
      cases text : toStr c (reasonValue members) with
      | error e =>
          rw [text] at read
          exact absurd read (by simp [Except.map])
      | ok reason =>
          rw [text] at read
          exact ⟨members, relation, candidate, confidence, reason, accepts, text,
            (Option.some.inj (Except.ok.inj read)).symm⟩
    · have refused : ∀ members relation candidate confidence,
          ¬ Accepts c existing minConfidence raw members relation candidate confidence :=
        fun members relation candidate confidence accepts =>
          accepted ⟨members, relation, candidate, confidence, accepts⟩
      cases readRow_of_not_accepts refused with
      | inl skipped => exact absurd (skipped.symm.trans read) (by simp)
      | inr raised =>
          obtain ⟨_, _, _, _, _, raised⟩ := raised
          exact absurd (raised.symm.trans read) (by simp)
  · intro ⟨members, relation, candidate, confidence, reason, accepts, text, same⟩
    rw [readRow_of_accepts accepts, text, same]
    rfl

/-- A row raises nothing exactly when its confidence is in the range of the floats and, where it is
accepted, its reason has a text. -/
theorem readRow_isOk_iff (raw : Json) :
    (∃ verdict, readRow c existing minConfidence raw = .ok verdict) ↔
      (∀ members, raw = .obj members →
        (relationIn members).isSome = true →
          (candidateIn existing members).isSome = true →
            ∀ n, confidenceValue members = .int n → n.natAbs < overflowBound) ∧
      ∀ members relation candidate confidence,
        Accepts c existing minConfidence raw members relation candidate confidence →
          hasLongInt (reasonValue members) = false := by
  constructor
  · intro ⟨verdict, read⟩
    constructor
    · intro members row related named n value
      by_contra large
      have overflows := (toFloat_overflow_iff (c := c) _).mpr ⟨n, value, not_lt.mp large⟩
      obtain ⟨relation, relates⟩ := Option.isSome_iff_exists.mp related
      obtain ⟨candidate, names⟩ := Option.isSome_iff_exists.mp named
      rw [row, readRow_obj] at read
      simp only [relates, names, verdictOn, overflows] at read
      exact absurd read (by simp)
    · intro members relation candidate confidence accepts
      rw [readRow_of_accepts accepts] at read
      rw [← toStr_isOk_iff (c := c)]
      cases text : toStr c (reasonValue members) with
      | error e =>
          rw [text] at read
          exact absurd read (by simp [Except.map])
      | ok reason => exact ⟨reason, rfl⟩
  · intro ⟨inRange, reason⟩
    by_cases accepted : ∃ members relation candidate confidence,
        Accepts c existing minConfidence raw members relation candidate confidence
    · obtain ⟨members, relation, candidate, confidence, accepts⟩ := accepted
      obtain ⟨text, read⟩ := (toStr_isOk_iff (c := c) _).mpr (reason _ _ _ _ accepts)
      rw [readRow_of_accepts accepts, read]
      exact ⟨_, rfl⟩
    · have refused : ∀ members relation candidate confidence,
          ¬ Accepts c existing minConfidence raw members relation candidate confidence :=
        fun members relation candidate confidence accepts =>
          accepted ⟨members, relation, candidate, confidence, accepts⟩
      cases readRow_of_not_accepts refused with
      | inl skipped => exact ⟨none, skipped⟩
      | inr raised =>
          obtain ⟨members, row, related, named, overflows, _⟩ := raised
          obtain ⟨n, value, large⟩ := (toFloat_overflow_iff (c := c) _).mp overflows
          exact absurd (inRange members row related named n value) (not_lt.mpr large)

/-! The verdicts of a payload. -/

variable (c existing minConfidence) in
/-- This is the memory and the relation of a row that is accepted. -/
def acceptedAs (raw : Json) : Option (Nat × ConflictRelation) :=
  match raw with
  | .obj members =>
      match relationIn members, candidateIn existing members,
        toFloat c (confidenceValue members) with
      | some relation, some candidate, .ok confidence =>
          if confidence.lt minConfidence then none else some (candidate.memoryId, relation)
      | _, _, _ => none
  | _ => none

theorem acceptedAs_of_accepts {raw : Json} {members : JsonDict} {relation : ConflictRelation}
    {candidate : ConflictCandidate} {confidence : PyFloat}
    (accepts : Accepts c existing minConfidence raw members relation candidate confidence) :
    acceptedAs c existing minConfidence raw = some (candidate.memoryId, relation) := by
  rw [accepts.row]
  simp only [acceptedAs, accepts.relates, accepts.names, accepts.reads, accepts.enough,
    Bool.false_eq_true, if_false]

theorem accepts_of_acceptedAs {raw : Json} {id : Nat} {relation : ConflictRelation}
    (accepted : acceptedAs c existing minConfidence raw = some (id, relation)) :
    ∃ members candidate confidence,
      Accepts c existing minConfidence raw members relation candidate confidence ∧
        candidate.memoryId = id := by
  rw [acceptedAs.eq_def] at accepted
  split at accepted
  · rename_i members
    split at accepted
    · rename_i relation' candidate confidence relates names reads
      split at accepted
      · exact absurd accepted (by simp)
      · rename_i high
        obtain ⟨same, rfl⟩ := Prod.mk.inj (Option.some.inj accepted)
        exact ⟨members, candidate, confidence, ⟨rfl, relates, names, reads, by simpa using high⟩, same⟩
    · exact absurd accepted (by simp)
  · exact absurd accepted (by simp)

/-- The loop returns a verdict for each accepted row, unless a row raises. -/
theorem readRows_isOk_iff (rows : List Json) :
    (∃ verdicts, readRows c existing minConfidence rows = .ok verdicts) ↔
      ∀ raw ∈ rows, ∃ verdict, readRow c existing minConfidence raw = .ok verdict := by
  induction rows with
  | nil => exact ⟨fun _ _ inside => absurd inside List.not_mem_nil, fun _ => ⟨[], rfl⟩⟩
  | cons raw rest ih =>
      rw [List.forall_mem_cons, ← ih, readRows]
      simp only [bind_eq_ok]
      constructor
      · intro ⟨_, verdict, first, verdicts, later, _⟩
        exact ⟨⟨verdict, first⟩, verdicts, later⟩
      · intro ⟨⟨verdict, first⟩, verdicts, later⟩
        exact ⟨verdict.toList ++ verdicts, verdict, first, verdicts, later, rfl⟩

/-- The verdict of a row is among those of all rows. -/
theorem mem_of_readRow {rows : List Json} {verdicts : List ReasonedVerdict}
    (read : readRows c existing minConfidence rows = .ok verdicts) {raw : Json} (inside : raw ∈ rows)
    {verdict : ReasonedVerdict} (found : readRow c existing minConfidence raw = .ok (some verdict)) :
    verdict ∈ verdicts := by
  induction rows generalizing verdicts with
  | nil => exact absurd inside List.not_mem_nil
  | cons first rest ih =>
      rw [readRows] at read
      obtain ⟨one, own, done⟩ := (bind_eq_ok _ _ _).mp read
      obtain ⟨others, later, same⟩ := (bind_eq_ok _ _ _).mp done
      rw [← Except.ok.inj same, List.mem_append, Option.mem_toList]
      cases List.mem_cons.mp inside with
      | inl equal =>
          rw [equal] at found
          exact Or.inl (Except.ok.inj (own.symm.trans found))
      | inr behind => exact Or.inr (ih later behind)

theorem mem_readRows {rows : List Json} {verdicts : List ReasonedVerdict}
    (read : readRows c existing minConfidence rows = .ok verdicts) (verdict : ReasonedVerdict)
    (inside : verdict ∈ verdicts) :
    ∃ raw ∈ rows, readRow c existing minConfidence raw = .ok (some verdict) := by
  induction rows generalizing verdicts with
  | nil =>
      rw [← Except.ok.inj read] at inside
      exact absurd inside List.not_mem_nil
  | cons raw rest ih =>
      rw [readRows] at read
      obtain ⟨first, one, done⟩ := (bind_eq_ok _ _ _).mp read
      obtain ⟨others, later, same⟩ := (bind_eq_ok _ _ _).mp done
      rw [← Except.ok.inj same, List.mem_append, Option.mem_toList] at inside
      cases inside with
      | inl own => exact ⟨raw, List.mem_cons_self, one.trans (congrArg Except.ok own)⟩
      | inr behind =>
          obtain ⟨raw', present, found⟩ := ih later behind
          exact ⟨raw', List.mem_cons_of_mem _ present, found⟩

/-- The verdicts name the memories of the accepted rows, in their order. -/
theorem map_readRows {rows : List Json} {verdicts : List ReasonedVerdict}
    (read : readRows c existing minConfidence rows = .ok verdicts) :
    (verdicts.map fun v => (v.memoryId, v.relation)) =
      rows.filterMap (acceptedAs c existing minConfidence) := by
  induction rows generalizing verdicts with
  | nil =>
      rw [← Except.ok.inj read]
      rfl
  | cons raw rest ih =>
      rw [readRows] at read
      obtain ⟨first, one, done⟩ := (bind_eq_ok _ _ _).mp read
      obtain ⟨others, later, same⟩ := (bind_eq_ok _ _ _).mp done
      rw [← Except.ok.inj same, List.map_append, ih later, List.filterMap_cons]
      cases first with
      | none =>
          cases accepted : acceptedAs c existing minConfidence raw with
          | none => rfl
          | some pair =>
              obtain ⟨members, candidate, confidence, accepts, _⟩ := accepts_of_acceptedAs accepted
              rw [readRow_of_accepts accepts] at one
              cases text : toStr c (reasonValue members) with
              | error e => simp [text, Except.map] at one
              | ok reason => simp [text, Except.map] at one
      | some verdict =>
          obtain ⟨members, relation, candidate, confidence, reason, accepts, _, made⟩ :=
            (readRow_eq_some raw verdict).mp one
          rw [acceptedAs_of_accepts accepts, made]
          rfl

/-- These are the items of a list; no other value has any. -/
def itemsOf : Json → List Json
  | .arr items => items
  | _ => []

variable (c existing minConfidence) in
theorem readRows_texts (texts : List Str) :
    readRows c existing minConfidence (texts.map fun text => .str text) = .ok [] := by
  induction texts with
  | nil => rfl
  | cons text rest ih =>
      rw [List.map_cons, readRows, ih]
      rfl

/-- A payload is read as the rows of its list, unless the loop raises at once. -/
theorem parse_eq_readRows (payload : Option JsonDict) :
    parse_ c existing minConfidence payload =
      if truthy (verdictsOf payload) && !iterates (verdictsOf payload) then .error .typeError
      else readRows c existing minConfidence (itemsOf (verdictsOf payload)) := by
  have rows : rowsOf payload = if truthy (verdictsOf payload) then
      (match verdictsOf payload with
      | .arr items => .ok items
      | .str s => .ok (s.map fun char => .str [char])
      | .obj members => .ok (members.map fun member => .str member.1)
      | _ => .error .typeError) else .ok [] := rfl
  rw [parse_, rows]
  generalize verdictsOf payload = value
  cases value with
  | null => simp [truthy, iterates, itemsOf, bind, Except.bind, readRows, pure, Except.pure]
  | bool b => cases b <;> simp [truthy, iterates, itemsOf, bind, Except.bind, readRows, pure, Except.pure]
  | int n =>
      by_cases zero : n = 0
      · simp [truthy, zero, itemsOf, bind, Except.bind]
      · simp [truthy, zero, iterates, bind, Except.bind]
  | float x =>
      by_cases zero : x.rank = some (0, 0)
      · simp [truthy, zero, itemsOf, bind, Except.bind]
      · simp [truthy, zero, iterates, bind, Except.bind]
  | str s =>
      have texts := readRows_texts c existing minConfidence (s.map fun char => [char])
      rw [List.map_map] at texts
      cases s with
      | nil => simp [truthy, itemsOf, bind, Except.bind]
      | cons char rest =>
          simp only [truthy, List.isEmpty_cons, Bool.not_false, if_true, iterates, Bool.not_true,
            Bool.and_false, Bool.false_eq_true, if_false, itemsOf, bind, Except.bind]
          exact texts
  | arr items =>
      cases items with
      | nil => simp [truthy, itemsOf, bind, Except.bind]
      | cons item rest => simp [truthy, iterates, itemsOf, bind, Except.bind]
  | obj members =>
      have texts := readRows_texts c existing minConfidence (members.map Prod.fst)
      rw [List.map_map] at texts
      cases members with
      | nil => simp [truthy, itemsOf, bind, Except.bind]
      | cons member rest =>
          simp only [truthy, List.isEmpty_cons, Bool.not_false, if_true, iterates, Bool.not_true,
            Bool.and_false, Bool.false_eq_true, if_false, itemsOf, bind, Except.bind]
          exact texts

/-- The payload is read without an exception. Its verdicts name candidates, each one once at most, with a
confidence from the least one to one. -/
structure Safe (c : Conversions) (existing : List ConflictCandidate) (minConfidence : PyFloat)
    (payload : Option JsonDict) (verdicts : List ReasonedVerdict) : Prop where
  returns : parse_ c existing minConfidence payload = .ok verdicts
  named : ∀ verdict ∈ verdicts, ∃ candidate ∈ existing, candidate.memoryId = verdict.memoryId
  once : (verdicts.map fun verdict => verdict.memoryId).Nodup
  confident : ∀ verdict ∈ verdicts, Within minConfidence onePointZero verdict.confidence

/-- The verdicts of the payload are no number and not true, their rows raise nothing, and those that are
accepted name a memory once at most. -/
structure Regular (c : Conversions) (existing : List ConflictCandidate) (minConfidence : PyFloat)
    (payload : Option JsonDict) : Prop where
  loops : truthy (verdictsOf payload) = true → iterates (verdictsOf payload) = true
  fine : ∀ raw ∈ itemsOf (verdictsOf payload), Fine c existing minConfidence raw
  once : (((itemsOf (verdictsOf payload)).filterMap (acceptedAs c existing minConfidence)).map
    Prod.fst).Nodup

theorem mem_of_candidateAt {index : Option Json} {candidate : ConflictCandidate}
    (found : candidateAt existing index = some candidate) : candidate ∈ existing := by
  rw [candidateAt.eq_def] at found
  split at found
  · split at found
    · exact List.mem_of_getElem? found
    · exact absurd found (by simp)
  · exact absurd found (by simp)

theorem map_memoryId {verdicts : List ReasonedVerdict} {rows : List Json}
    (read : readRows c existing minConfidence rows = .ok verdicts) :
    (verdicts.map fun verdict => verdict.memoryId) =
      (rows.filterMap (acceptedAs c existing minConfidence)).map Prod.fst := by
  rw [← map_readRows read, List.map_map]
  rfl

/-- A payload is safe exactly when it is regular. -/
theorem safe_iff (bounds : Within Retrieval.zeroPointZero onePointZero minConfidence)
    (payload : Option JsonDict) :
    (∃ verdicts, Safe c existing minConfidence payload verdicts) ↔
      Regular c existing minConfidence payload := by
  constructor
  · intro ⟨verdicts, safe⟩
    have returns := safe.returns
    rw [parse_eq_readRows] at returns
    split at returns
    · exact absurd returns (by simp)
    · rename_i loops
      have rows := (readRows_isOk_iff _).mp ⟨verdicts, returns⟩
      refine ⟨by simpa using loops, fun raw inside => ?_, map_memoryId returns ▸ safe.once⟩
      obtain ⟨inRange, reason⟩ := (readRow_isOk_iff raw).mp (rows raw inside)
      refine ⟨inRange, reason, fun members relation candidate accepts => ?_⟩
      obtain ⟨text, read⟩ := (toStr_isOk_iff (c := c) _).mpr (reason _ _ _ _ accepts)
      have verdict := readRow_of_accepts accepts
      rw [read] at verdict
      have member : (⟨⟨candidate.memoryId, relation, clamp nan⟩, text.take 200⟩ : ReasonedVerdict) ∈
          verdicts := mem_of_readRow returns inside verdict
      exact (clamp_nan_within bounds).mp (safe.confident _ member)
  · intro regular
    have rows : ∀ raw ∈ itemsOf (verdictsOf payload),
        ∃ verdict, readRow c existing minConfidence raw = .ok verdict := fun raw inside =>
      (readRow_isOk_iff raw).mpr ⟨(regular.fine raw inside).inRange, (regular.fine raw inside).reason⟩
    obtain ⟨verdicts, read⟩ := (readRows_isOk_iff _).mpr rows
    have returns : parse_ c existing minConfidence payload = .ok verdicts := by
      rw [parse_eq_readRows, if_neg, read]
      have loops := regular.loops
      cases value : truthy (verdictsOf payload) with
      | false => simp
      | true => simp [loops value]
    refine ⟨verdicts, returns, fun verdict inside => ?_, map_memoryId read ▸ regular.once,
      fun verdict inside => ?_⟩
    · obtain ⟨raw, _, found⟩ := mem_readRows read verdict inside
      obtain ⟨_, _, candidate, _, _, accepts, _, made⟩ := (readRow_eq_some raw verdict).mp found
      exact ⟨candidate, mem_of_candidateAt accepts.names, by rw [made]⟩
    · obtain ⟨raw, present, found⟩ := mem_readRows read verdict inside
      obtain ⟨members, relation, candidate, confidence, _, accepts, _, made⟩ :=
        (readRow_eq_some raw verdict).mp found
      rw [made]
      by_cases number : confidence = nan
      · subst number
        exact (clamp_nan_within bounds).mpr ((regular.fine raw present).number _ _ _ accepts)
      · exact clamp_within bounds confidence number accepts.enough

/-- A row that raises nothing gives the verdict that the conflict task takes from it. -/
theorem parseOne_of_readRow {raw : Json} {verdict : Option ReasonedVerdict}
    (read : readRow c existing minConfidence raw = .ok verdict) :
    parseOne (fun value => (toFloat c value).toOption) existing minConfidence raw =
      verdict.map ReasonedVerdict.toConflictVerdict := by
  have parsed (members : JsonDict) : parseOne (fun value => (toFloat c value).toOption) existing
      minConfidence (.obj members) = (relationIn members).bind fun relation =>
        (candidateIn existing members).bind fun candidate =>
          (toFloat c (confidenceValue members)).toOption.bind fun confidence =>
            if confidence.lt minConfidence then none
            else some ⟨candidate.memoryId, relation, clamp confidence⟩ := rfl
  cases verdict with
  | some verdict =>
      obtain ⟨members, relation, candidate, confidence, _, accepts, _, rfl⟩ :=
        (readRow_eq_some raw verdict).mp read
      rw [accepts.row, parsed, accepts.relates, accepts.names, accepts.reads]
      simp only [Option.bind_some, Except.toOption, accepts.enough, Bool.false_eq_true, if_false,
        Option.map_some]
  | none =>
      cases raw with
      | obj members =>
          rw [parsed, Option.map_none]
          by_contra accepted
          obtain ⟨verdict, made⟩ := Option.ne_none_iff_exists'.mp accepted
          simp only [Option.bind_eq_some_iff] at made
          obtain ⟨relation, relates, candidate, names, confidence, reads, made⟩ := made
          cases value : toFloat c (confidenceValue members) with
          | error e =>
              rw [value] at reads
              exact absurd reads (by simp [Except.toOption])
          | ok confidence' =>
              rw [value] at reads
              obtain rfl := Option.some.inj reads
              cases low : confidence'.lt minConfidence with
              | true => simp [low] at made
              | false =>
                  rw [readRow_of_accepts ⟨rfl, relates, names, value, low⟩] at read
                  cases text : toStr c (reasonValue members) with
                  | error e => simp [text, Except.map] at read
                  | ok reason => simp [text, Except.map] at read
      | null => rfl
      | bool b => rfl
      | int n => rfl
      | float x => rfl
      | str s => rfl
      | arr items => rfl

/-- Without an exception, the judge returns the verdicts that the conflict task takes from the payload. -/
theorem parse_of_parse_ (payload : Option JsonDict) (verdicts : List ReasonedVerdict)
    (returns : parse_ c existing minConfidence payload = .ok verdicts) :
    parse (fun value => (toFloat c value).toOption) payload existing minConfidence =
      verdicts.map ReasonedVerdict.toConflictVerdict := by
  have taken : parse (fun value => (toFloat c value).toOption) payload existing minConfidence =
      (itemsOf (verdictsOf payload)).filterMap
        (parseOne (fun value => (toFloat c value).toOption) existing minConfidence) := by
    rw [parse, verdictsOf]
    cases payload.bind fun members => Dict.get? members "verdicts".toList with
    | none => rfl
    | some value => cases value <;> rfl
  rw [parse_eq_readRows] at returns
  split at returns
  · exact absurd returns (by simp)
  · rw [taken]
    generalize itemsOf (verdictsOf payload) = rows at returns
    induction rows generalizing verdicts with
    | nil =>
        rw [← Except.ok.inj returns]
        rfl
    | cons raw rest ih =>
        rw [readRows] at returns
        obtain ⟨first, one, done⟩ := (bind_eq_ok _ _ _).mp returns
        obtain ⟨others, later, same⟩ := (bind_eq_ok _ _ _).mp done
        rw [← Except.ok.inj same, List.filterMap_cons, parseOne_of_readRow one, ih others later,
          List.map_append]
        cases first with
        | none => rfl
        | some verdict => rfl

end ConflictJudge

namespace ConflictTask

open ConflictJudge

variable (env : Environment) (engine : SearchEngine) (complement : PyFloat → PyFloat)

/-- No link of the memory has the type and the other memory of a row that is accepted. -/
def Unlinked (c : Conversions) (existing : List ConflictCandidate) (minConfidence : PyFloat)
    (db : Database) (memoryId : Nat) (payload : Option JsonDict) : Prop :=
  ∀ raw ∈ itemsOf (verdictsOf payload), ∀ id relation,
    acceptedAs c existing minConfidence raw = some (id, relation) → ∀ link ∈ db.links,
      ¬ (link.fromMemoryId = memoryId ∧ link.toMemoryId = id ∧ linkTypeOf relation = some link.linkType)

/-- The links of verdicts that name each memory once are stored exactly when none of them is there. -/
theorem linkVerdicts_isSome_iff (now : Instant) (memoryId : Nat) (db : Database)
    (verdicts : List ConflictVerdict) (once : (verdicts.map ConflictVerdict.memoryId).Nodup)
    (targets : ∀ verdict ∈ verdicts, ∃ m ∈ db.memories.rows, m.id = verdict.memoryId) :
    (linkVerdicts now memoryId db verdicts).isSome = true ↔
      ∀ verdict ∈ verdicts, ∀ link ∈ db.links, ¬ (link.fromMemoryId = memoryId ∧
        link.toMemoryId = verdict.memoryId ∧ linkTypeOf verdict.relation = some link.linkType) := by
  have stored : (linkVerdicts now memoryId db verdicts).isSome = true ↔
      Linkable db (verdicts.filterMap (linkOf now memoryId)) := by
    rw [linkVerdicts_eq, Option.isSome_map, Option.isSome_iff_exists]
    simp only [storeLinks_eq_some]
    constructor
    · rintro ⟨_, linkable, _⟩
      exact linkable
    · intro linkable
      exact ⟨_, linkable, rfl⟩
  have made (verdict : ConflictVerdict) (link : MemoryLink) :
      linkOf now memoryId verdict = some link ↔ ∃ linkType, linkTypeOf verdict.relation = some linkType ∧
        link = ⟨memoryId, verdict.memoryId, linkType, verdict.confidence, now⟩ := by
    rw [linkOf, Option.map_eq_some_iff]
    exact exists_congr fun linkType => and_congr_right fun _ => eq_comm
  rw [stored]
  constructor
  · rintro linkable verdict inside old present ⟨start, target, type⟩
    have link := List.mem_filterMap.mpr ⟨verdict, inside, (made verdict _).mpr ⟨_, type, rfl⟩⟩
    exact linkable.free _ link old present ⟨start, target, rfl⟩
  · intro free
    constructor
    · intro link inside
      obtain ⟨verdict, present, made'⟩ := List.mem_filterMap.mp inside
      obtain ⟨linkType, _, rfl⟩ := (made verdict link).mp made'
      exact targets verdict present
    · intro link inside old present same
      obtain ⟨verdict, listed, made'⟩ := List.mem_filterMap.mp inside
      obtain ⟨linkType, type, rfl⟩ := (made verdict link).mp made'
      exact free verdict listed old present ⟨same.1, same.2.1, same.2.2 ▸ type⟩
    · rw [List.pairwise_filterMap]
      apply (List.pairwise_map.mp once).imp
      intro a b apart link first link' second same
      obtain ⟨_, _, rfl⟩ := (made a link).mp first
      obtain ⟨_, _, rfl⟩ := (made b link').mp second
      exact apart same.2.1

/-- A payload of the judge is safe exactly when it is regular, and its links are stored as well exactly
when none of them is there already. -/
theorem judge_output_safe_iff (env : Environment) (engine : SearchEngine)
    (complement : PyFloat → PyFloat) (c : Conversions) (minConfidence : PyFloat)
    (bounds : PyFloat.Within Retrieval.zeroPointZero onePointZero minConfidence)
    (payload : Option JsonDict) :
    (∀ existing, (∃ verdicts, Safe c existing minConfidence payload verdicts) ↔
      Regular c existing minConfidence payload) ∧
    ∀ (now : Instant) (db : Database) (memory : Memory),
      let existing := (neighbours env engine complement db memory).map asCandidate
      (∃ verdicts, Safe c existing minConfidence payload verdicts ∧ (linkVerdicts now memory.id db
        (verdicts.map ReasonedVerdict.toConflictVerdict)).isSome = true) ↔
          Regular c existing minConfidence payload ∧
            Unlinked c existing minConfidence db memory.id payload := by
  refine ⟨fun existing => safe_iff bounds payload, ?_⟩
  intro now db memory existing
  have links (verdicts : List ReasonedVerdict) (safe : Safe c existing minConfidence payload verdicts) :
      (linkVerdicts now memory.id db (verdicts.map ReasonedVerdict.toConflictVerdict)).isSome = true ↔
        Unlinked c existing minConfidence db memory.id payload := by
    have read := safe.returns
    rw [parse_eq_readRows] at read
    split at read
    · exact absurd read (by simp)
    · have pairs := map_readRows read
      rw [linkVerdicts_isSome_iff, List.forall_mem_map]
      · rw [Unlinked]
        constructor
        · intro free raw inside id relation accepted
          have member := List.mem_filterMap.mpr ⟨raw, inside, accepted⟩
          rw [← pairs] at member
          obtain ⟨verdict, present, same⟩ := List.mem_map.mp member
          obtain ⟨rfl, rfl⟩ := Prod.mk.inj same
          exact free verdict present
        · intro free verdict inside
          have member : (verdict.memoryId, verdict.relation) ∈
              (itemsOf (verdictsOf payload)).filterMap (acceptedAs c existing minConfidence) := by
            rw [← pairs]
            exact List.mem_map.mpr ⟨verdict, inside, rfl⟩
          obtain ⟨raw, present, accepted⟩ := List.mem_filterMap.mp member
          exact free raw present _ _ accepted
      · rw [List.map_map]
        exact safe.once
      · rw [List.forall_mem_map]
        intro verdict inside
        obtain ⟨candidate, listed, same⟩ := safe.named verdict inside
        obtain ⟨m, near, rfl⟩ := List.mem_map.mp listed
        exact ⟨m, mem_neighbours_rows db memory m near, same⟩
  rw [← safe_iff bounds payload]
  constructor
  · intro ⟨verdicts, safe, stored⟩
    exact ⟨⟨verdicts, safe⟩, (links verdicts safe).mp stored⟩
  · intro ⟨⟨verdicts, safe⟩, free⟩
    exact ⟨verdicts, safe, (links verdicts safe).mpr free⟩

/-- The conversions of the samples are right for the values of the samples, which need no rounding. -/
def sampleConversions : Conversions where
  ofInt _ := onePointZero
  number _ := one_ne_nan
  ofText _ := none
  text _ := []

theorem half_within : PyFloat.Within Retrieval.zeroPointZero onePointZero zeroPointFive :=
  ⟨by decide +kernel, by decide +kernel⟩

/-- The value `true` cannot be looped over. -/
theorem true_verdicts_raise :
    ¬ ∀ (c : Conversions) (existing : List ConflictCandidate) (minConfidence : PyFloat)
      (payload : Option JsonDict), PyFloat.Within Retrieval.zeroPointZero onePointZero minConfidence →
        ∃ verdicts, Safe c existing minConfidence payload verdicts := by
  intro claim
  obtain ⟨verdicts, safe⟩ := claim sampleConversions [] zeroPointFive
    (some [("verdicts".toList, .bool true)]) half_within
  have raised : parse_ sampleConversions [] zeroPointFive (some [("verdicts".toList, .bool true)]) =
      .error .typeError := rfl
  exact absurd (raised.symm.trans safe.returns) (by simp)

/-- A row on the first candidate. -/
def sampleRow : JsonDict :=
  [("index".toList, .int 0), ("relation".toList, .str "supersedes"),
    ("confidence".toList, .float onePointZero)]

def samplePayload : JsonDict := [("verdicts".toList, .arr [.obj sampleRow])]

def sampleCandidate : ConflictCandidate := ⟨7, [], [], [], 0⟩

theorem sample_output_safe : ∃ verdicts,
    Safe sampleConversions [sampleCandidate] zeroPointFive (some samplePayload) verdicts := by
  refine ((judge_output_safe_iff MemoryService.sampleEnvironment AgentLoop.sampleEngine id
    sampleConversions zeroPointFive half_within (some samplePayload)).1 [sampleCandidate]).mpr ?_
  have only (raw : Json) (inside : raw ∈ itemsOf (verdictsOf (some samplePayload))) :
      raw = .obj sampleRow := List.mem_singleton.mp inside
  have value : confidenceValue sampleRow = .float onePointZero := rfl
  refine ⟨fun _ => rfl, fun raw inside => ?_, by decide +kernel⟩
  rw [only raw inside]
  constructor
  · intro members row _ _ n large
    obtain rfl := Value.obj.inj row
    exact absurd (value.symm.trans large) (by simp)
  · intro members _ _ _ accepts
    obtain rfl := Value.obj.inj accepts.row
    rfl
  · intro members _ _ accepts
    obtain rfl := Value.obj.inj accepts.row
    have reads := accepts.reads
    rw [value] at reads
    exact absurd (Except.ok.inj reads) one_ne_nan

end ConflictTask
end Kortex
