import Kortex.Library.Sorted
import Kortex.Library.Traverse
import Kortex.Model.EmbeddingQueue
import Kortex.Model.Voyage

/-
This file proves when `parse_response` of `voyage.py` gives each text its own vector.
-/

namespace Kortex.Voyage

variable (c : Conversions)

/-- The index of the row is an infinite float. -/
def Infinite (row : Json) : Prop := ∃ negative, field "index" row = .ok (.float (.inf negative))

/-- One row of the list has the number, and this is its vector. -/
def OwnVector (rows : List Json) (i : Nat) (vector : List PyFloat) : Prop :=
  ∃ k, ∃ small : k < rows.length,
    (∀ j (small' : j < rows.length), indexOf c rows[j] = .ok (i : Int) ↔ j = k) ∧
      vectorOf c rows[k] = .ok vector

/-- The answer is an `EmbeddingError`, or it has the vector of the row `i` at the place `i`. -/
def Bound (payload : JsonDict) (expected : Nat) : Except Raised (List (List PyFloat)) → Prop
  | .error (.embeddingError _) => True
  | .error (.escaped _) => False
  | .ok vectors => vectors.length = expected ∧
      ∃ rows, Dict.get? payload "data" = some (.arr rows) ∧
        ∀ i (small : i < vectors.length), OwnVector c rows i vectors[i]

/-- In the order of the rows, an infinite index comes before any other that cannot be read. -/
def StopsAtInfinity (rows : List Json) : Prop :=
  ∃ front row back, rows = front ++ row :: back ∧ (∀ r ∈ front, ∃ i, indexOf c r = .ok i) ∧ Infinite row

/-- The rows of a payload are well formed, or the code sees that they are not. -/
def Orderly (payload : JsonDict) (expected : Nat) : Prop :=
  ∀ rows, Dict.get? payload "data" = some (.arr rows) →
    ¬ StopsAtInfinity c rows ∧
      ((∀ row ∈ rows, ∃ i, indexOf c row = .ok i) →
        (∀ row ∈ rows, ∃ vector, vectorOf c row = .ok vector) ∧
          (rows.length = expected → ∀ i < expected, ∃ row ∈ rows, indexOf c row = .ok (i : Int)))

variable {c}

theorem field_error (name : Str) (row : Json) (e : RowError) (raised : field name row = .error e) :
    e ≠ .python .overflowError := by
  cases row with
  | obj members =>
      rw [field] at raised
      cases found : Dict.get? members name with
      | none =>
          rw [found] at raised
          rw [← Except.error.inj raised]
          exact RowError.noConfusion
      | some value =>
          rw [found] at raised
          exact absurd raised (by simp)
  | _ =>
      rw [← Except.error.inj raised]
      simp

theorem indexOf_overflow_iff (row : Json) :
    indexOf c row = .error (.python .overflowError) ↔ Infinite row := by
  rw [indexOf, Infinite]
  cases look : field "index" row with
  | error e =>
      constructor
      · intro raised
        exact absurd (Except.error.inj raised) (field_error _ row e look)
      · rintro ⟨negative, same⟩
        exact absurd same (by simp)
  | ok value =>
      change (toInt c value).mapError RowError.python = _ ↔ _
      cases value with
      | float x => cases x <;> simp [toInt, Except.mapError]
      | str s => cases read : c.intOfText s <;> simp [toInt, Except.mapError, read]
      | _ => simp [toInt, Except.mapError]

theorem stopsAtInfinity_iff (rows : List Json) :
    StopsAtInfinity c rows ↔ rows.mapM (indexOf c) = .error (.python .overflowError) := by
  rw [Traverse.mapM_eq_error_iff]
  simp only [StopsAtInfinity, indexOf_overflow_iff]

variable {rows : List Json} {indices : List Int}

theorem ordered_eq : ordered indices rows = (Ranked.sortPairs (indices.zip rows)).map Prod.snd := rfl

theorem mem_ordered (read : rows.mapM (indexOf c) = .ok indices) (row : Json) :
    row ∈ ordered indices rows ↔ row ∈ rows := by
  have same : (indices.zip rows).map Prod.snd = rows :=
    List.map_snd_zip (Traverse.length_of_mapM read).le
  have moved := (List.perm_insertionSort (fun a b : Int × Json => a.1 ≤ b.1) (indices.zip rows)).map
    Prod.snd
  rw [same] at moved
  exact moved.mem_iff

/-- Each row of the sorted list comes with its own index. -/
theorem indexOf_sortPairs (read : rows.mapM (indexOf c) = .ok indices) (pair : Int × Json)
    (inside : pair ∈ Ranked.sortPairs (indices.zip rows)) :
    ∃ k, ∃ small : k < rows.length, rows[k] = pair.2 ∧ indexOf c rows[k] = .ok pair.1 := by
  have lengths := Traverse.length_of_mapM read
  have original := (List.perm_insertionSort _ (indices.zip rows)).mem_iff.mp inside
  obtain ⟨k, small, same⟩ := List.mem_iff_getElem.mp original
  rw [List.getElem_zip] at same
  rw [List.length_zip] at small
  have own := Traverse.getElem_of_mapM read k (by omega) (by omega)
  exact ⟨k, by omega, congrArg Prod.snd same, own.trans (congrArg Except.ok (congrArg Prod.fst same))⟩

/-- Where every number is the index of a row, the vectors stand at their numbers. -/
theorem ownVector_of_all (read : rows.mapM (indexOf c) = .ok indices) (vectors : List (List PyFloat))
    (parsed : (ordered indices rows).mapM (vectorOf c) = .ok vectors)
    (all : ∀ i < rows.length, ∃ row ∈ rows, indexOf c row = .ok (i : Int)) (i : Nat)
    (small : i < vectors.length) : OwnVector c rows i vectors[i] := by
  have lengths := Traverse.length_of_mapM read
  have zipped : (indices.zip rows).length = rows.length := by
    rw [List.length_zip, lengths, Nat.min_self]
  have numbered : ∀ j < rows.length, (j : Int) ∈ indices := by
    intro j below
    obtain ⟨row, inside, own⟩ := all j below
    obtain ⟨k, small', rfl⟩ := List.mem_iff_getElem.mp inside
    have index := Traverse.getElem_of_mapM read k small' (by omega)
    rw [own, Except.ok.injEq] at index
    rw [index]
    exact List.getElem_mem _
  have distinct : indices.Nodup := by
    have same := Ranked.perm_range indices rows.length lengths.symm numbered
    exact same.nodup_iff.mpr (List.nodup_range.map Int.ofNat_injective)
  have firsts := Ranked.map_fst_sortPairs (indices.zip rows) (by
    rw [zipped, List.map_fst_zip lengths.symm.le]
    exact numbered)
  have count := Traverse.length_of_mapM parsed
  rw [ordered_eq, List.length_map] at count
  have inside : i < (Ranked.sortPairs (indices.zip rows)).length := by omega
  have place : (Ranked.sortPairs (indices.zip rows))[i].1 = (i : Int) := by
    have same := List.getElem_of_eq firsts (by rw [List.length_map]; exact inside)
    rw [List.getElem_map, List.getElem_map, List.getElem_range] at same
    exact same
  obtain ⟨k, below, row, own⟩ := indexOf_sortPairs read _ (List.getElem_mem inside)
  rw [place] at own
  refine ⟨k, below, ?_, ?_⟩
  · intro j below'
    constructor
    · intro other
      have first := Traverse.getElem_of_mapM read j below' (by omega)
      have second := Traverse.getElem_of_mapM read k below (by omega)
      rw [other, Except.ok.injEq] at first
      rw [own, Except.ok.injEq] at second
      exact (List.Nodup.getElem_inj_iff distinct).mp (first.symm.trans second)
    · rintro rfl
      exact own
  · have given := Traverse.getElem_of_mapM parsed i (by rw [ordered_eq, List.length_map]; exact inside) small
    rw [row]
    simpa only [ordered_eq, List.getElem_map] using given

variable {payload : JsonDict}

/-- An index that cannot be read is an `EmbeddingError`, unless it is infinite. -/
theorem bound_of_error (expected : Nat) (found : Dict.get? payload "data" = some (.arr rows)) (e : RowError)
    (read : rows.mapM (indexOf c) = .error e) :
    Bound c payload expected (parseResponse c payload expected) ↔ e ≠ .python .overflowError := by
  rw [parseResponse, found]
  dsimp only
  rw [read]
  cases e with
  | keyError => exact iff_of_true trivial RowError.noConfusion
  | python e =>
      cases e with
      | overflowError => exact iff_of_false (fun bound => bound) (fun other => other rfl)
      | typeError => exact iff_of_true trivial (by decide)
      | valueError => exact iff_of_true trivial (by decide)

theorem bound_of_ok (expected : Nat) (found : Dict.get? payload "data" = some (.arr rows))
    (read : rows.mapM (indexOf c) = .ok indices) :
    Bound c payload expected (parseResponse c payload expected) ↔
      (∀ row ∈ rows, ∃ vector, vectorOf c row = .ok vector) ∧
        (rows.length = expected → ∀ i < expected, ∃ row ∈ rows, indexOf c row = .ok (i : Int)) := by
  have readable : (∀ row ∈ rows, ∃ vector, vectorOf c row = .ok vector) ↔
      ∃ vectors, (ordered indices rows).mapM (vectorOf c) = .ok vectors := by
    rw [Traverse.exists_mapM_iff]
    simp only [mem_ordered read]
  rw [readable, parseResponse, found]
  dsimp only
  rw [read]
  dsimp only
  cases parsed : (ordered indices rows).mapM (vectorOf c) with
  | error e =>
      refine iff_of_false (fun bound => bound) ?_
      rintro ⟨⟨vectors, same⟩, _⟩
      exact absurd same (by simp)
  | ok vectors =>
      have lengths := Traverse.length_of_mapM read
      have count : rows.length = vectors.length := by
        have same := Traverse.length_of_mapM parsed
        have sorted := List.length_insertionSort (fun a b : Int × Json => a.1 ≤ b.1) (indices.zip rows)
        rw [List.length_zip] at sorted
        rw [ordered, List.length_map] at same
        omega
      dsimp only
      rw [and_iff_right ⟨vectors, rfl⟩, count]
      split
      · next other => exact iff_of_true trivial fun same => absurd same other
      · next same =>
          have same : vectors.length = expected := not_not.mp same
          subst same
          constructor
          · rintro ⟨_, rows', found', own⟩ _ i small
            rw [found, Option.some.injEq, Value.arr.injEq] at found'
            rw [← found'] at own
            obtain ⟨k, below, only, _⟩ := own i small
            exact ⟨rows[k], List.getElem_mem below, (only k below).mpr rfl⟩
          · intro all
            rw [← count] at all
            exact ⟨rfl, rows, found, ownVector_of_all read vectors parsed (all rfl)⟩

theorem bound_iff (payload : JsonDict) (expected : Nat) :
    Bound c payload expected (parseResponse c payload expected) ↔ Orderly c payload expected := by
  by_cases array : ∃ rows, Dict.get? payload "data" = some (.arr rows)
  · obtain ⟨rows, found⟩ := array
    have orderly : Orderly c payload expected ↔ ¬ StopsAtInfinity c rows ∧
        ((∀ row ∈ rows, ∃ i, indexOf c row = .ok i) →
          (∀ row ∈ rows, ∃ vector, vectorOf c row = .ok vector) ∧
            (rows.length = expected → ∀ i < expected, ∃ row ∈ rows, indexOf c row = .ok (i : Int))) := by
      constructor
      · intro all
        exact all rows found
      · intro own rows' found'
        rw [found, Option.some.injEq, Value.arr.injEq] at found'
        rw [← found']
        exact own
    rw [orderly, stopsAtInfinity_iff, ← Traverse.exists_mapM_iff]
    cases read : rows.mapM (indexOf c) with
    | error e =>
        rw [bound_of_error expected found e read, and_iff_left]
        · rw [Ne, Except.error.injEq]
        · rintro ⟨indices, same⟩
          exact absurd same (by simp)
    | ok indices =>
        rw [bound_of_ok expected found read]
        constructor
        · intro own
          exact ⟨by simp, fun _ => own⟩
        · intro own
          exact own.2 ⟨indices, rfl⟩
  · have answer : ∃ e, parseResponse c payload expected = .error (.embeddingError e) := by
      rw [parseResponse]
      split
      · next rows found => exact absurd ⟨rows, found⟩ array
      · exact ⟨_, rfl⟩
    obtain ⟨e, answer⟩ := answer
    rw [answer]
    exact iff_of_true trivial fun rows found => absurd ⟨rows, found⟩ array

/-- A batch stores under the id of each memory the vector that was made from its text. -/
theorem embedBatch_own (q : EmbeddingQueue.Queue) (b : EmbeddingQueue.Batch) (vectors : List (List PyFloat))
    (some : EmbeddingQueue.listPendingEmbedding q (b.clock 0) ≠ [])
    (asked : b.embedder 0 ((EmbeddingQueue.listPendingEmbedding q (b.clock 0)).map EmbeddingTask.textOf) =
      .ok vectors)
    (bound : Bound c payload (EmbeddingQueue.listPendingEmbedding q (b.clock 0)).length (.ok vectors)) :
    let stored := (EmbeddingQueue.listPendingEmbedding q (b.clock 0)).zip vectors
    EmbeddingQueue.embedBatch b q = EmbeddingQueue.storeBatch b 1 q stored ∧
      ∃ rows, Dict.get? payload "data" = .some (.arr rows) ∧
        ∀ i (small : i < stored.length), OwnVector c rows i stored[i].2 := by
  intro stored
  obtain ⟨same, rows, found, own⟩ := bound
  refine ⟨?_, rows, found, ?_⟩
  · rw [EmbeddingQueue.embedBatch, if_neg some, asked]
    dsimp only
    rw [if_neg (not_not.mpr same)]
  · intro i small
    have inside : i < vectors.length := by
      rw [List.length_zip] at small
      omega
    have second : stored[i].2 = vectors[i] := congrArg Prod.snd List.getElem_zip
    rw [second]
    exact own i inside

/-- The code gives each text its own vector exactly when the rows are well formed, or when it sees that
they are not; a batch then stores under the id of each memory the vector of its own text. -/
theorem parseResponse_binds_iff (payload : JsonDict) (expected : Nat) :
    (Bound c payload expected (parseResponse c payload expected) ↔ Orderly c payload expected) ∧
      (Orderly c payload expected →
        ∀ (q : EmbeddingQueue.Queue) (b : EmbeddingQueue.Batch) (vectors : List (List PyFloat)),
          (EmbeddingQueue.listPendingEmbedding q (b.clock 0)).length = expected →
            EmbeddingQueue.listPendingEmbedding q (b.clock 0) ≠ [] →
              parseResponse c payload expected = .ok vectors →
                b.embedder 0 ((EmbeddingQueue.listPendingEmbedding q (b.clock 0)).map
                  EmbeddingTask.textOf) = .ok vectors →
                  let stored := (EmbeddingQueue.listPendingEmbedding q (b.clock 0)).zip vectors
                  EmbeddingQueue.embedBatch b q = EmbeddingQueue.storeBatch b 1 q stored ∧
                    ∃ rows, Dict.get? payload "data" = some (.arr rows) ∧
                      ∀ i (small : i < stored.length), OwnVector c rows i stored[i].2) := by
  refine ⟨bound_iff payload expected, ?_⟩
  intro orderly q b vectors count pending parsed asked
  have bound := (bound_iff payload expected).mpr orderly
  rw [parsed, ← count] at bound
  exact embedBatch_own q b vectors pending asked bound

theorem onePointZero_ne_nan : onePointZero ≠ .nan := by decide

def sampleConversions : Conversions where
  ofInt _ := onePointZero
  number _ := onePointZero_ne_nan
  ofText _ := none
  text _ := []
  truncate _ := 1
  intOfText _ := none

def sampleRow (index : Int) (x : PyFloat) : Json :=
  .obj [("index".toList, .int index), ("embedding".toList, .arr [.float x])]

def shiftedRows : List Json := [sampleRow 1 onePointZero, sampleRow 2 Retrieval.zeroPointZero]

/-- The rows of the second and the third text pass for those of the first and the second. -/
theorem shifted_rows_misbind :
    ¬ Bound sampleConversions [("data".toList, .arr shiftedRows)] 2
      (parseResponse sampleConversions [("data".toList, .arr shiftedRows)] 2) := by
  have answer : parseResponse sampleConversions [("data".toList, .arr shiftedRows)] 2 =
      .ok [[onePointZero], [Retrieval.zeroPointZero]] := rfl
  rw [answer]
  rintro ⟨_, rows, found, own⟩
  obtain ⟨k, below, only, _⟩ := own 0 (by decide)
  have data : Dict.get? [("data".toList, Value.arr shiftedRows)] "data" = some (.arr shiftedRows) := rfl
  rw [data, Option.some.injEq, Value.arr.injEq] at found
  subst found
  have first : ∀ row ∈ shiftedRows, indexOf sampleConversions row ≠ .ok 0 := by
    rintro row (_ | ⟨_, _ | ⟨_, inside⟩⟩)
    · decide
    · decide
    · exact absurd inside List.not_mem_nil
  exact first _ (List.getElem_mem below) ((only k below).mpr rfl)

/-- A payload with one row for its one text binds it. -/
theorem single_row_binds :
    Bound sampleConversions [("data".toList, .arr [sampleRow 0 onePointZero])] 1
      (parseResponse sampleConversions [("data".toList, .arr [sampleRow 0 onePointZero])] 1) := by
  refine (parseResponse_binds_iff [("data".toList, .arr [sampleRow 0 onePointZero])] 1).1.mpr ?_
  intro rows found
  have data : Dict.get? [("data".toList, Value.arr [sampleRow 0 onePointZero])] "data" =
      some (.arr [sampleRow 0 onePointZero]) := rfl
  rw [data, Option.some.injEq, Value.arr.injEq] at found
  subst found
  have index : indexOf sampleConversions (sampleRow 0 onePointZero) = .ok 0 := rfl
  have vector : vectorOf sampleConversions (sampleRow 0 onePointZero) = .ok [onePointZero] := rfl
  have finite : ¬ StopsAtInfinity sampleConversions [sampleRow 0 onePointZero] := by
    rw [stopsAtInfinity_iff, Traverse.mapM_cons, index]
    decide
  refine ⟨finite, fun _ => ⟨List.forall_mem_singleton.mpr ⟨_, vector⟩, fun _ i small => ?_⟩⟩
  obtain rfl : i = 0 := by omega
  exact ⟨_, List.mem_singleton_self _, index⟩

end Kortex.Voyage
