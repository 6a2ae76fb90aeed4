import Luomi.Client.ArithmeticItems

/-!
# The results of an arithmetic select item

A call for the whole block against the calls for its rows, one after the other.
-/

namespace Luomi.Client.ArithmeticResults

open Aggregates Arithmetic ArithmeticRows
  Luomi.Client.ArithmeticItems
open List (append_nil length_cons length_range)
open Option (bind_eq_some_iff map_eq_some_iff map_some some.inj some.injEq)

def columnOf (sas : SArithmeticSupport) (colId : Int) (i : Nat) : Cell :=
  match sas.pReqColumns.find? fun column => column.1 = colId with
  | some column => sas.data column.2 i
  | none => none

def Known (sas : SArithmeticSupport) : SyntaxNode -> Prop
  | .expr pLeft _ pRight => Known sas pLeft ∧ Known sas pRight
  | .col pSchema => pSchema.type.isNumber = true ∧ 0 ≤ pSchema.colId ∧
      ∃ column ∈ sas.pReqColumns, column.1 = pSchema.colId
  | .value pVal => pVal.nType.isNumber = true

variable {node pLeft pRight : SyntaxNode} {sas : SArithmeticSupport} {column : Int -> Nat -> Cell}
  {num : Nat} {optr : BinaryOp} {source : Int -> Option (Nat -> Cell)} {after out : Output}
  {order : Order} {operand : Operand} {type : DataType}

theorem found_of_known (known : Known sas node)
    (offset : Nat) : Found (arithmeticCallbackFunction { sas with offset := offset })
      (fun colId i => columnOf sas colId (offset + i)) node := by
  induction node with
  | expr pLeft optr pRight leftIh rightIh => exact ⟨leftIh known.1, rightIh known.2⟩
  | value pVal => exact known
  | col pSchema =>
    obtain ⟨isNumber, nonneg, column, isIn, isColumn⟩ := known
    refine ⟨isNumber, ?_⟩
    rw [arithmeticCallbackFunction]
    cases isFound : sas.pReqColumns.find? fun column => column.1 = pSchema.colId with
    | none =>
      have missing := List.find?_eq_none.mp isFound column isIn
      simp [isColumn] at missing
    | some found =>
      simp only [columnOf, isFound, if_pos nonneg]

theorem valueOf_shift (column : Int -> Nat -> Cell) (offset : Nat) (node : SyntaxNode) :
    valueOf (fun colId i => column colId (offset + i)) node 0 = valueOf column node offset := by
  induction node with
  | expr pLeft optr pRight leftIh rightIh => rw [valueOf, valueOf, leftIh, rightIh]
  | col pSchema => rfl
  | value pVal => rfl

def itemValue (sas : SArithmeticSupport) (i : Nat) : Cell :=
  valueOf (columnOf sas) (.expr sas.pLeft sas.optr sas.pRight) i

/-- The support for a block: it begins with the first row. -/
structure Prepared (sas : SArithmeticSupport) : Prop where
  left : Known sas sas.pLeft
  right : Known sas sas.pRight
  offset : sas.offset = 0

theorem prepared_found (prepared : Prepared sas) :
    Found (arithmeticCallbackFunction sas) (columnOf sas) sas.pLeft ∧
      Found (arithmeticCallbackFunction sas) (columnOf sas) sas.pRight := by
  have left := found_of_known prepared.left 0
  have right := found_of_known prepared.right 0
  have sameSas : { sas with offset := 0 } = sas := by rw [<- prepared.offset]
  have sameColumn : (fun (colId : Int) (i : Nat) => columnOf sas colId (0 + i)) = columnOf sas := by
    funext colId i
    rw [Nat.zero_add]
  rw [sameSas, sameColumn] at left right
  exact ⟨left, right⟩

theorem lookup_other {writes rest : List (Int × Cell)} {pos : Int}
    (other : pos ∉ writes.map Prod.fst) : (writes ++ rest).lookup pos = rest.lookup pos := by
  induction writes with
  | nil => rfl
  | cons write later ih =>
    obtain ⟨first, value⟩ := write
    rw [List.map_cons, List.mem_cons, not_or] at other
    have different : (pos == first) = false := by simpa using other.1
    rw [List.cons_append, List.lookup_cons, different]
    exact ih other.2

theorem arithmeticFunctionF_spec (prepared : Prepared sas) (pCtx : SQLFunctionCtx) (index : Nat) :
    ∃ writes, arithmeticFunctionF sas pCtx index = some { pCtx with
        counts := ⟨pCtx.counts.numOfIteratedElems + 1, pCtx.counts.numOfOutputElems + 1⟩
        aOutputBuf := pCtx.aOutputBuf + stepOf pCtx.order
        memory := writes ++ pCtx.memory } ∧
      (∀ pos, pos ∈ writes.map Prod.fst ↔ pos = pCtx.aOutputBuf) ∧
      (writes ++ pCtx.memory).lookup pCtx.aOutputBuf = some (itemValue sas index) := by
  obtain ⟨out, runs, ⟨writes, written, slots⟩, values⟩ := @traverse_single _ _ pCtx.order _ _
    sas.optr ⟨pCtx.aOutputBuf, pCtx.memory⟩ (found_of_known prepared.left index)
    (found_of_known prepared.right index)
  have slotIs : slotOf pCtx.order pCtx.aOutputBuf 1 0 = pCtx.aOutputBuf := by
    cases pCtx.order <;> simp [slotOf]
  refine ⟨writes, ?_, fun pos => ?_, ?_⟩
  · rw [arithmeticFunctionF]
    simp only
    rw [runs, map_some, written]
  · rw [slots pos]
    constructor
    · rintro ⟨i, small, rfl⟩
      obtain rfl : i = 0 := by omega
      exact slotIs
    · rintro rfl
      exact ⟨0, by omega, slotIs.symm⟩
  · have isValue := values 0 (by omega)
    simp only at isValue
    rw [slotIs, valueOf_shift] at isValue
    rw [<- written]
    exact isValue

theorem rowByRow_spec (prepared : Prepared sas) (rows : List Nat) (pCtx : SQLFunctionCtx) :
    ∃ writes iterated, rowByRow sas rows pCtx = some { pCtx with
        counts := ⟨iterated, pCtx.counts.numOfOutputElems + rows.length⟩
        aOutputBuf := pCtx.aOutputBuf + rows.length * stepOf pCtx.order
        memory := writes ++ pCtx.memory } ∧
      (∀ pos, pos ∈ writes.map Prod.fst ↔
        ∃ k < rows.length, pos = pCtx.aOutputBuf + (k : Int) * stepOf pCtx.order) ∧
      ∀ (k index : Nat), rows[k]? = some index ->
        (writes ++ pCtx.memory).lookup (pCtx.aOutputBuf + (k : Int) * stepOf pCtx.order) =
          some (itemValue sas index) := by
  induction rows generalizing pCtx with
  | nil =>
    refine ⟨[], pCtx.counts.numOfIteratedElems, ?_, by simp, fun k index isIndex => ?_⟩
    · simp [rowByRow]
    · cases isIndex
  | cons first rest ih =>
    have apart : stepOf pCtx.order = 1 ∨ stepOf pCtx.order = -1 := by
      cases pCtx.order
      · exact Or.inl rfl
      · exact Or.inr rfl
    obtain ⟨now, runs, nowSlots, nowValue⟩ := arithmeticFunctionF_spec prepared pCtx first
    obtain ⟨later, iterated, goesOn, laterSlots, laterValues⟩ := ih { pCtx with
      counts := ⟨pCtx.counts.numOfIteratedElems + 1, pCtx.counts.numOfOutputElems + 1⟩
      aOutputBuf := pCtx.aOutputBuf + stepOf pCtx.order
      memory := now ++ pCtx.memory }
    simp only at goesOn laterSlots laterValues
    refine ⟨later ++ now, iterated, ?_, fun pos => ?_, fun k index isIndex => ?_⟩
    · rw [rowByRow, runs, Option.bind_some, goesOn, List.append_assoc, length_cons]
      push_cast
      rw [add_mul, one_mul, add_assoc, add_assoc, add_comm 1, add_comm (stepOf pCtx.order)]
    · rw [List.map_append, List.mem_append, laterSlots, nowSlots, length_cons]
      constructor
      · rintro (⟨k, small, rfl⟩ | rfl)
        · refine ⟨k + 1, by omega, ?_⟩
          push_cast
          rw [add_mul, one_mul, add_assoc, add_comm (stepOf pCtx.order)]
        · exact ⟨0, by omega, by simp⟩
      · rintro ⟨k, small, rfl⟩
        rcases Nat.eq_zero_or_pos k with rfl | positive
        · exact Or.inr (by simp)
        · refine Or.inl ⟨k - 1, by omega, ?_⟩
          rw [show (k : Int) = ((k - 1 : Nat) : Int) + 1 by omega, add_mul, one_mul, add_assoc,
            add_comm (stepOf pCtx.order)]
    · rw [List.append_assoc]
      cases k with
      | zero =>
        obtain rfl := some.inj isIndex
        have notLater : pCtx.aOutputBuf ∉ later.map Prod.fst := by
          rw [laterSlots]
          rintro ⟨k, -, same⟩
          rcases apart with step | step
          · rw [step] at same
            omega
          · rw [step] at same
            omega
        rw [Nat.cast_zero, zero_mul, add_zero, lookup_other notLater]
        exact nowValue
      | succ k =>
        have isValue := laterValues k index isIndex
        rw [<- isValue]
        congr 1
        push_cast
        rw [add_mul, one_mul, add_assoc, add_comm (stepOf pCtx.order)]

theorem rowByRow_delivered (prepared : Prepared sas) (pCtx : SQLFunctionCtx) :
    ∃ after, rowByRow sas (indices pCtx.order pCtx.size) pCtx = some after ∧
      Delivered (itemValue sas) pCtx after := by
  obtain ⟨writes, iterated, runs, slots, values⟩ :=
    rowByRow_spec prepared (indices pCtx.order pCtx.size) pCtx
  have length : (indices pCtx.order pCtx.size).length = pCtx.size := by
    cases pCtx.order <;> simp [indices]
  rw [length] at runs slots
  -- The row that is computed in turn `k`.
  have turn : ∀ i < pCtx.size, ∃ k < pCtx.size,
      (indices pCtx.order pCtx.size)[k]? = some i ∧
        slotOf pCtx.order pCtx.aOutputBuf pCtx.size i =
          pCtx.aOutputBuf + (k : Int) * stepOf pCtx.order := by
    intro i small
    cases pCtx.order with
    | asc => exact ⟨i, small, by simp [indices, small], by simp [slotOf, stepOf]⟩
    | desc =>
      refine ⟨pCtx.size - 1 - i, by omega, ?_, ?_⟩
      · rw [indices, List.getElem?_reverse (by rw [length_range]; omega),
          length_range, List.getElem?_range (by omega), some.injEq]
        omega
      · simp only [slotOf, stepOf]
        omega
  refine ⟨_, runs, rfl, rfl, ⟨writes, rfl, fun pos => ?_⟩, fun i small => ?_⟩
  · rw [slots]
    constructor
    · rintro ⟨k, small, rfl⟩
      cases isOrder : pCtx.order with
      | asc => exact ⟨k, small, by simp [slotOf, stepOf]⟩
      | desc =>
        refine ⟨pCtx.size - 1 - k, by omega, ?_⟩
        simp only [slotOf, stepOf]
        omega
    · rintro ⟨i, small, rfl⟩
      obtain ⟨k, isTurn, -, isSlot⟩ := turn i small
      exact ⟨k, isTurn, isSlot⟩
  · obtain ⟨k, -, isIndex, isSlot⟩ := turn i small
    rw [isSlot]
    exact values k i isIndex

def Fits (sas : SArithmeticSupport) (pCtx : SQLFunctionCtx) : Prop :=
  match pCtx.order with
  | .asc => FitsAsc (columnOf sas) pCtx.size (.expr sas.pLeft sas.optr sas.pRight)
  | .desc => FitsDesc (columnOf sas) pCtx.size sas.pLeft sas.optr sas.pRight

section

variable (out : Output) (leftFound : Found source column pLeft)
  (rightFound : Found source column pRight)

include leftFound rightFound

theorem traverse_asc (fits : FitsAsc column num (.expr pLeft optr pRight)) :
    ∃ after, tSQLBinaryExprCalcTraverse source .asc num pLeft optr pRight out = some after ∧
      Placed .asc num (valueOf column (.expr pLeft optr pRight)) out after := by
  obtain ⟨leftFits, rightFits, one, rows⟩ := fits
  obtain ⟨left, isLeft, leftNumber, leftHolds⟩ := operandOf_asc leftFound leftFits
  obtain ⟨right, isRight, rightNumber, rightHolds⟩ := operandOf_asc rightFound rightFits
  obtain ⟨inPlace, same⟩ := asc_inPlace rows
  rw [tSQLBinaryExprCalcTraverse, isLeft, isRight]
  exact calcOperands_placed optr out ⟨leftNumber, rightNumber⟩ leftHolds rightHolds
    (holds_sizes leftHolds rightHolds one) (fun isDesc => by cases isDesc) inPlace same

theorem traverse_desc (fits : FitsDesc column num pLeft optr pRight) :
    ∃ after, tSQLBinaryExprCalcTraverse source .desc num pLeft optr pRight out = some after ∧
      Placed .desc num (valueOf column (.expr pLeft optr pRight)) out after := by
  rcases fits with rfl | ⟨leftLeaf, rightLeaf, notBoth, notInts, rows⟩
  · exact traverse_single optr out leftFound rightFound
  obtain ⟨left, isLeft, leftNumber, leftHolds⟩ := @operandOf_leaf _ _ .desc num _ leftFound leftLeaf
  obtain ⟨right, isRight, rightNumber, rightHolds⟩ :=
    @operandOf_leaf _ _ .desc num _ rightFound rightLeaf
  have sizes := holds_sizes leftHolds rightHolds fun isConst isConst' =>
    absurd ⟨isConst, isConst'⟩ notBoth
  have plain : ¬ CountsUp optr (typeOf pLeft) (typeOf pRight) left right := by
    rintro ⟨isAdd, leftInt, rightInt, different⟩
    refine notInts ⟨isAdd, leftInt, rightInt, ?_⟩
    by_contra neither
    rw [not_or, Bool.not_eq_true, Bool.not_eq_true] at neither
    have leftSize := leftHolds.1
    have rightSize := rightHolds.1
    rw [neither.1, if_neg Bool.false_ne_true] at leftSize
    rw [neither.2, if_neg Bool.false_ne_true] at rightSize
    omega
  have same : ∀ i < num, readOf column pLeft optr pRight i =
      valueOf column (.expr pLeft optr pRight) i := by
    intro i small
    rcases Nat.eq_zero_or_pos i with rfl | positive
    · exact (single_inPlace column .desc pLeft optr pRight).2 0 (by omega)
    · obtain ⟨number, isNumber⟩ := rows i small positive
      have isValue := isNumber
      rw [readOf] at isValue
      split at isValue
      next => rw [isNumber, isValue]
      next => cases isValue
  rw [tSQLBinaryExprCalcTraverse, isLeft, isRight]
  exact calcOperands_placed optr out ⟨leftNumber, rightNumber⟩ leftHolds rightHolds sizes
    (fun _ => plain) rows same

end

theorem fits_delivered (prepared : Prepared sas) {pCtx : SQLFunctionCtx} (fits : Fits sas pCtx) :
    ∃ after, arithmeticFunction sas pCtx = some after ∧ Delivered (itemValue sas) pCtx after := by
  obtain ⟨leftFound, rightFound⟩ := prepared_found prepared
  obtain ⟨out, runs, slots, values⟩ : ∃ out,
      tSQLBinaryExprCalcTraverse (arithmeticCallbackFunction sas) pCtx.order pCtx.size sas.pLeft
        sas.optr sas.pRight ⟨pCtx.aOutputBuf, pCtx.memory⟩ = some out ∧
      Placed pCtx.order pCtx.size (itemValue sas) ⟨pCtx.aOutputBuf, pCtx.memory⟩ out := by
    rw [Fits] at fits
    cases isOrder : pCtx.order with
    | asc =>
      rw [isOrder] at fits
      exact traverse_asc _ leftFound rightFound fits
    | desc =>
      rw [isOrder] at fits
      exact traverse_desc _ leftFound rightFound fits
  refine ⟨{ pCtx with
    counts := { pCtx.counts with numOfOutputElems := pCtx.counts.numOfOutputElems + pCtx.size }
    memory := out.written
    aOutputBuf := pCtx.aOutputBuf + pCtx.size * stepOf pCtx.order }, ?_, rfl, rfl, slots, values⟩
  rw [arithmeticFunction, runs]
  rfl

theorem calcOperands_some
    {first second : Option (DataType × Operand)} (runs : calcOperands order optr first second out =
      some after) :
    ∃ leftType left rightType right, first = some (leftType, left) ∧
      second = some (rightType, right) ∧
      calcFn optr leftType rightType order left right out = some after := by
  unfold calcOperands at runs
  split at runs
  next leftType left rightType right =>
      rw [tGetBiConsumerFn] at runs
      split at runs
      next fp isFp =>
          split at isFp
          next =>
              obtain rfl := some.inj isFp
              exact ⟨leftType, left, rightType, right, rfl, rfl, runs⟩
          next => cases isFp
      next => cases runs
  next => cases runs

theorem calcFn_rows (optr : BinaryOp) (leftType rightType : DataType) (order : Order)
    (left right : Operand) (out : Output) :
    ∃ row rows, calcFn optr leftType rightType order left right out =
      placeRows (stepOf order) row rows out := by
  have plain : ∀ a b, ∃ row rows, arrayListOp optr order a b out =
      placeRows (stepOf order) row rows out := by
    intro a b
    rw [arrayListOp]
    split
    · exact ⟨_, _, rfl⟩
    · split
      · exact ⟨_, _, rfl⟩
      · split
        · exact ⟨_, _, rfl⟩
        · exact ⟨fun _ => none, [], rfl⟩
  rw [calcFn]
  split
  · exact plain right left
  · split
    · rw [calcFnI32I32Add]
      split
      · exact ⟨_, _, rfl⟩
      · split
        · exact ⟨_, _, rfl⟩
        · split
          · exact ⟨_, _, rfl⟩
          · exact ⟨fun _ => none, [], rfl⟩
    · exact plain left right

theorem operandOf_num (isOperand : operandOf source order num node = some (type, operand)) :
    if isConstant node then operand.num = 1 else operand.num = num := by
  cases node with
  | value pVal =>
    obtain ⟨-, rfl⟩ := Prod.mk.inj (some.inj isOperand)
    rfl
  | col pSchema =>
    rw [operandOf, map_eq_some_iff] at isOperand
    obtain ⟨cells, -, same⟩ := isOperand
    obtain ⟨-, rfl⟩ := Prod.mk.inj same
    rfl
  | expr pLeft optr pRight =>
    rw [operandOf, map_eq_some_iff] at isOperand
    obtain ⟨found, isBuffer, same⟩ := isOperand
    obtain ⟨-, rfl⟩ := Prod.mk.inj same
    obtain ⟨after, -, isFound⟩ := bind_eq_some_iff.mp isBuffer
    rw [buffer] at isFound
    split at isFound
    next =>
        obtain rfl := some.inj isFound
        rfl
    next => cases isFound

section

variable {leftType rightType : DataType} {left right : Operand}
  (isLeft : operandOf source order num pLeft = some (leftType, left))
  (isRight : operandOf source order num pRight = some (rightType, right))

include isLeft isRight

theorem operandOf_sizes (one : OneOfRows num pLeft pRight) : Sizes num left right := by
  have leftNum := operandOf_num isLeft
  have rightNum := operandOf_num isRight
  cases leftConst : isConstant pLeft with
  | false =>
    rw [leftConst, if_neg Bool.false_ne_true] at leftNum
    refine ⟨Or.inl leftNum, ?_, Or.inl leftNum⟩
    split at rightNum
    · exact Or.inr rightNum
    · exact Or.inl rightNum
  | true =>
    rw [leftConst, if_pos rfl] at leftNum
    cases rightConst : isConstant pRight with
    | false =>
      rw [rightConst, if_neg Bool.false_ne_true] at rightNum
      exact ⟨Or.inr leftNum, Or.inl rightNum, Or.inr rightNum⟩
    | true =>
      have single := one leftConst rightConst
      rw [rightConst, if_pos rfl] at rightNum
      exact ⟨Or.inr leftNum, Or.inr rightNum, Or.inl (leftNum.trans single.symm)⟩

theorem constants_once (leftConst : isConstant pLeft = true) (rightConst : isConstant pRight = true)
    (optr : BinaryOp) (out : Output) : calcFn optr leftType rightType order left right out =
      placeRows (stepOf order) (calcRow optr leftType rightType 1 left right) [0] out := by
  have leftNum := operandOf_num isLeft
  have rightNum := operandOf_num isRight
  rw [leftConst, if_pos rfl] at leftNum
  rw [rightConst, if_pos rfl] at rightNum
  have atOnce : indices order 1 = [0] := by cases order <;> rfl
  rw [<- atOnce]
  refine calcFn_eq ⟨Or.inl leftNum, Or.inl rightNum, Or.inl leftNum⟩ optr leftType rightType order
    out fun _ => ?_
  rintro ⟨-, -, -, different⟩
  omega

end

theorem operandOf_holds (found : Found source column node) (fits : FitsAsc column num node)
    (isOperand : operandOf source .asc num node = some (type, operand)) :
    Holds column num node operand := by
  obtain ⟨operand', isOperand', -, holds⟩ := operandOf_asc found fits
  rw [isOperand, some.injEq, Prod.mk.injEq] at isOperand'
  rw [isOperand'.2]
  exact holds

theorem last_number (positive : 0 < num) (found : Found source column node)
    (isOperand : operandOf source .asc num node = some (type, operand))
    (last : ∃ number, operand.cells (num - 1) = some (some number)) : FitsAsc column num node := by
  induction node generalizing type operand with
  | col pSchema => trivial
  | value pVal => trivial
  | expr pLeft optr pRight leftIh rightIh =>
    rw [operandOf, map_eq_some_iff] at isOperand
    obtain ⟨buffered, isBuffer, same⟩ := isOperand
    obtain ⟨-, rfl⟩ := Prod.mk.inj same
    obtain ⟨after, runs, isFound⟩ := bind_eq_some_iff.mp isBuffer
    rw [buffer] at isFound
    split at isFound
    next inside =>
        obtain rfl := some.inj isFound
        obtain ⟨number, isNumber⟩ := last
        simp only at isNumber
        have isWritten : (((num - 1 : Nat) : Int), some number) ∈ after.written := by
          obtain ⟨before, behind, splits, -⟩ := List.lookup_eq_some_iff.mp isNumber
          rw [splits]
          exact List.mem_append_right _ List.mem_cons_self
        obtain ⟨leftType, left, rightType, right, isLeft, isRight, isRun⟩ :=
          calcOperands_some runs
        have one : OneOfRows num pLeft pRight := by
          intro leftConst rightConst
          rw [constants_once isLeft isRight leftConst rightConst] at isRun
          have advanced := placeRows_advanced isRun
          obtain ⟨writes, written, ahead⟩ := advanced.writes
          rw [written, append_nil] at isWritten
          have before := ahead _ _ isWritten
          have most := advanced.most
          rw [List.length_singleton] at most
          simp only at most
          omega
        have sizes := operandOf_sizes isLeft isRight one
        rw [calcFn_eq sizes _ _ _ _ _ fun isDesc => by cases isDesc] at isRun
        have advanced := placeRows_advanced isRun
        obtain ⟨writes, written, ahead⟩ := advanced.writes
        rw [written, append_nil] at isWritten
        have before := ahead _ _ isWritten
        have most := advanced.most
        have numbers := advanced.numbers
        simp only [indices, length_range, List.mem_range] at most numbers
        have all := numbers (by omega)
        obtain ⟨lastNumber, isLast⟩ := all (num - 1) (by omega)
        obtain ⟨leftLast, rightLast⟩ := calcRow_number isLast
        have leftFits := leftIh found.1 isLeft leftLast
        have rightFits := rightIh found.2 isRight rightLast
        have leftHolds := operandOf_holds found.1 leftFits isLeft
        have rightHolds := operandOf_holds found.2 rightFits isRight
        refine ⟨leftFits, rightFits, one, Or.inl fun i small => ?_⟩
        obtain ⟨rowNumber, isRow⟩ := all i small
        rw [calcRow_eq optr leftType rightType leftHolds rightHolds small] at isRow
        exact ⟨rowNumber, some.inj isRow⟩
    next => cases isFound

section

variable {step : Int} {row : Nat -> Option Cell} {rows : List Nat}
  (runs : placeRows step row rows out = some after)

include runs

theorem placeRows_length : after.written.length = rows.length + out.written.length := by
  induction rows generalizing out with
  | nil =>
    obtain rfl := some.inj runs
    rw [List.length_nil, Nat.zero_add]
  | cons i rest ih =>
    rw [placeRows] at runs
    cases isCell : row i with
    | none =>
      rw [isCell] at runs
      cases runs
    | some cell =>
      rw [isCell] at runs
      have placed : (placeRow step cell i out).written.length = out.written.length + 1 := by
        cases cell <;> rfl
      rw [ih runs, placed, length_cons]
      omega

theorem one_write (few : rows.length ≤ 1)
    (slots : ∃ writes, after.written = writes ++ out.written ∧ ∀ pos, pos ∈ writes.map Prod.fst ↔ ∃
      i < num, pos = slotOf order out.pos num i)
    :
    num ≤ 1 := by
  by_contra more
  obtain ⟨writes, written, slots⟩ := slots
  have length := placeRows_length runs
  rw [written, List.length_append] at length
  have first := (slots _).mpr ⟨0, by omega, rfl⟩
  have second := (slots _).mpr ⟨1, by omega, rfl⟩
  match writes, length, first, second with
  | [], _, isIn, _ => cases isIn
  | [write], _, isFirst, isSecond =>
    have same := (List.mem_singleton.mp isFirst).trans (List.mem_singleton.mp isSecond).symm
    exact absurd (slotOf_inj same) (by omega)
  | _ :: _ :: rest, isLength, _, _ =>
    rw [length_cons, length_cons] at isLength
    omega

end

theorem readOf_value
    {i : Nat} {number : ℚ} (isNumber : readOf column pLeft optr pRight i = some number) :
    valueOf column (.expr pLeft optr pRight) i = some number := by
  rw [readOf] at isNumber
  split at isNumber
  next => exact isNumber
  next => cases isNumber

theorem asc_fits (leftFound : Found source column pLeft) (rightFound : Found source column pRight)
    (runs : tSQLBinaryExprCalcTraverse source .asc num pLeft optr pRight out = some after)
    (placed : Placed .asc num (valueOf column (.expr pLeft optr pRight)) out after)
    (live : ∃ i < num, ∃ number, valueOf column (.expr pLeft optr pRight) i = some number) :
    FitsAsc column num (.expr pLeft optr pRight) := by
  obtain ⟨leftType, left, rightType, right, isLeft, isRight, isRun⟩ := calcOperands_some runs
  have positive : 0 < num := by
    obtain ⟨i, small, -⟩ := live
    omega
  have one : OneOfRows num pLeft pRight := by
    intro leftConst rightConst
    rw [constants_once isLeft isRight leftConst rightConst] at isRun
    have few := one_write isRun (by simp) placed.slots
    omega
  have sizes := operandOf_sizes isLeft isRight one
  rw [calcFn_eq sizes _ _ _ _ _ fun isDesc => by cases isDesc] at isRun
  have fit : ∀ number, calcRow optr leftType rightType num left right (num - 1) =
      some (some number) -> FitsAsc column num pLeft ∧ FitsAsc column num pRight := by
    intro number isLast
    obtain ⟨leftLast, rightLast⟩ := calcRow_number isLast
    exact ⟨last_number positive leftFound isLeft leftLast,
      last_number positive rightFound isRight rightLast⟩
  have all := asc_exact isRun placed live fun number isLast => by
    obtain ⟨leftFits, rightFits⟩ := fit number isLast
    rw [calcRow_eq optr leftType rightType (operandOf_holds leftFound leftFits isLeft)
      (operandOf_holds rightFound rightFits isRight) (by omega), some.injEq] at isLast
    exact ⟨number, readOf_value isLast⟩
  obtain ⟨lastNumber, isLast⟩ := all (num - 1) (by omega)
  obtain ⟨leftFits, rightFits⟩ := fit lastNumber isLast
  refine ⟨leftFits, rightFits, one, Or.inl fun i small => ?_⟩
  obtain ⟨number, isRow⟩ := all i small
  rw [calcRow_eq optr leftType rightType (operandOf_holds leftFound leftFits isLeft)
    (operandOf_holds rightFound rightFits isRight) small] at isRow
  exact ⟨number, some.inj isRow⟩

theorem desc_operator (operator : isOperator node = true)
    (isOperand : operandOf source .desc num node = some (type, operand)) {i : Nat} {number : ℚ}
    (isNumber : operand.cells i = some (some number)) : i = 0 := by
  cases node with
  | col pSchema => cases operator
  | value pVal => cases operator
  | expr pLeft optr pRight =>
    rw [operandOf, map_eq_some_iff] at isOperand
    obtain ⟨buffered, isBuffer, same⟩ := isOperand
    obtain ⟨-, rfl⟩ := Prod.mk.inj same
    obtain ⟨after, runs, isFound⟩ := bind_eq_some_iff.mp isBuffer
    rw [buffer] at isFound
    split at isFound
    next inside =>
        obtain rfl := some.inj isFound
        simp only at isNumber
        obtain ⟨leftType, left, rightType, right, -, -, isRun⟩ := calcOperands_some runs
        obtain ⟨row, rows, isRows⟩ := calcFn_rows optr leftType rightType .desc left right ⟨0, []⟩
        rw [isRows] at isRun
        have receded := placeRows_receded isRun
        obtain ⟨writes, written, -⟩ := receded.writes
        have isWritten : ((i : Int), some number) ∈ writes := by
          obtain ⟨before, behind, splits, -⟩ := List.lookup_eq_some_iff.mp isNumber
          rw [written, append_nil] at splits
          rw [splits]
          exact List.mem_append_right _ List.mem_cons_self
        have low := receded.values writes written _ _ isWritten
        simp only at low
        omega
    next => cases isFound

theorem countsUp_once {left right : Operand} (sizes : Sizes num left right)
    {leftType rightType : DataType}
    (countsUp : CountsUp optr leftType rightType left right) (out : Output) :
    ∃ row rows, rows.length ≤ 1 ∧ calcFn optr leftType rightType .desc left right out =
      placeRows (-1) row rows out := by
  obtain ⟨rfl, rfl, rfl, different⟩ := countsUp
  have once : (indicesUp .desc num).length ≤ 1 := by
    rw [indicesUp, List.length_drop, length_range]
    omega
  rw [calcFn, if_neg (by simp [exchanged]), if_pos ⟨rfl, rfl, rfl⟩, calcFnI32I32Add,
    if_neg different]
  by_cases single : left.num = 1
  · have isNum : right.num = num := by
      rcases sizes.one with isNum | isNum
      · have rightNum := sizes.rightNum
        omega
      · exact isNum
    rw [if_pos single, isNum]
    exact ⟨_, _, once, rfl⟩
  · have leftNum := sizes.leftNum
    have isNum : left.num = num := by omega
    have isSingle : right.num = 1 := by
      have rightNum := sizes.rightNum
      omega
    rw [if_neg single, if_pos isSingle, isNum]
    exact ⟨_, _, once, rfl⟩

theorem desc_fits (positive : 0 < num)
    (leftFound : Found source column pLeft) (rightFound : Found source column pRight)
    (runs : tSQLBinaryExprCalcTraverse source .desc num pLeft optr pRight out = some after)
    (placed : Placed .desc num (valueOf column (.expr pLeft optr pRight)) out after) :
    FitsDesc column num pLeft optr pRight := by
  by_cases single : num = 1
  · exact Or.inl single
  have several : 1 < num := by omega
  obtain ⟨leftType, left, rightType, right, isLeft, isRight, isRun⟩ := calcOperands_some runs
  have notBoth : ¬ (isConstant pLeft = true ∧ isConstant pRight = true) := by
    rintro ⟨leftConst, rightConst⟩
    rw [constants_once isLeft isRight leftConst rightConst] at isRun
    have few := one_write isRun (by simp) placed.slots
    omega
  have sizes := operandOf_sizes isLeft isRight fun leftConst rightConst =>
    absurd ⟨leftConst, rightConst⟩ notBoth
  have notUp : ¬ CountsUp optr leftType rightType left right := by
    intro countsUp
    obtain ⟨row, rows, once, isRows⟩ := countsUp_once sizes countsUp out
    rw [isRows] at isRun
    have few := one_write isRun once placed.slots
    omega
  rw [calcFn_eq sizes _ _ _ _ _ fun _ => notUp] at isRun
  have numbers := desc_exact isRun placed.slots
  have leaf : isOperator pLeft = false ∧ isOperator pRight = false := by
    obtain ⟨number, isNumber⟩ := numbers 1 several Nat.one_pos
    obtain ⟨⟨a, isA⟩, b, isB⟩ := calcRow_number isNumber
    constructor
    · by_contra operator
      exact absurd (desc_operator (Bool.not_eq_false _ ▸ operator) isLeft isA) Nat.one_ne_zero
    · by_contra operator
      exact absurd (desc_operator (Bool.not_eq_false _ ▸ operator) isRight isB) Nat.one_ne_zero
  obtain ⟨left', isLeft', -, leftHolds⟩ :=
    @operandOf_leaf _ _ .desc num _ leftFound leaf.1
  obtain ⟨right', isRight', -, rightHolds⟩ :=
    @operandOf_leaf _ _ .desc num _ rightFound leaf.2
  rw [isLeft, some.injEq, Prod.mk.injEq] at isLeft'
  rw [isRight, some.injEq, Prod.mk.injEq] at isRight'
  obtain ⟨rfl, rfl⟩ := isLeft'
  obtain ⟨rfl, rfl⟩ := isRight'
  refine Or.inr ⟨leaf.1, leaf.2, notBoth, ?_, fun i small later => ?_⟩
  · rintro ⟨isAdd, leftInt, rightInt, oneConst⟩
    refine notUp ⟨isAdd, leftInt, rightInt, ?_⟩
    have leftNum := leftHolds.1
    have rightNum := rightHolds.1
    rcases oneConst with isConst | isConst
    · have other : isConstant pRight = false := by
        by_contra both
        exact notBoth ⟨isConst, Bool.not_eq_false _ ▸ both⟩
      rw [isConst, if_pos rfl] at leftNum
      rw [other, if_neg Bool.false_ne_true] at rightNum
      omega
    · have other : isConstant pLeft = false := by
        by_contra both
        exact notBoth ⟨Bool.not_eq_false _ ▸ both, isConst⟩
      rw [isConst, if_pos rfl] at rightNum
      rw [other, if_neg Bool.false_ne_true] at leftNum
      omega
  · obtain ⟨number, isNumber⟩ := numbers i small later
    rw [calcRow_eq optr _ _ leftHolds rightHolds small] at isNumber
    exact ⟨number, some.inj isNumber⟩

/-- One call for the block, and the calls for its rows one after the other, give each row its
value. -/
def Correct (sas : SArithmeticSupport) (pCtx : SQLFunctionCtx) : Prop :=
  (∃ after, arithmeticFunction sas pCtx = some after ∧ Delivered (itemValue sas) pCtx after) ∧
    ∃ after, rowByRow sas (indices pCtx.order pCtx.size) pCtx = some after ∧
      Delivered (itemValue sas) pCtx after

/-- A block from old to new whose rows are all NULL is left out. -/
def Live (sas : SArithmeticSupport) (pCtx : SQLFunctionCtx) : Prop :=
  pCtx.order = .desc ∨ ∃ i < pCtx.size, ∃ number, itemValue sas i = some number

/-- An expression that fits is computed as it should be, and only such an expression is, where
not all rows are NULL. -/
theorem correct_iff {sas : SArithmeticSupport} (prepared : Prepared sas) {pCtx : SQLFunctionCtx}
    (some_ : 0 < pCtx.size) : (Fits sas pCtx -> Correct sas pCtx) ∧
      (Live sas pCtx -> (Correct sas pCtx ↔ Fits sas pCtx)) := by
  have enough : Fits sas pCtx -> Correct sas pCtx := fun fits =>
    ⟨fits_delivered prepared fits, rowByRow_delivered prepared pCtx⟩
  refine ⟨enough, fun live => ⟨fun correct => ?_, enough⟩⟩
  obtain ⟨after, runs, -, -, slots, values⟩ := correct.1
  obtain ⟨leftFound, rightFound⟩ := prepared_found prepared
  rw [arithmeticFunction, map_eq_some_iff] at runs
  obtain ⟨out, isOut, rfl⟩ := runs
  rw [Fits]
  cases isOrder : pCtx.order with
  | asc =>
    rw [isOrder] at isOut slots values
    refine asc_fits leftFound rightFound isOut ⟨slots, values⟩ ?_
    rcases live with isDesc | someRow
    · rw [isOrder] at isDesc
      cases isDesc
    · exact someRow
  | desc =>
    rw [isOrder] at isOut slots values
    exact desc_fits some_ leftFound rightFound isOut ⟨slots, values⟩

def columnSum (first second : List Cell) : SArithmeticSupport where
  pLeft := .col ⟨.int, 1⟩
  optr := .add
  pRight := .col ⟨.int, 2⟩
  pReqColumns := [(1, 0), (2, 1)]
  offset := 0
  data := fun place i => ((if place = 0 then first else second)[i]?).getD none

def blockOf (size : Nat) (order : Order) : SQLFunctionCtx where
  size := size
  order := order
  counts := initVal
  aOutputBuf := 0
  memory := []

theorem columnSum_prepared (first second : List Cell) : Prepared (columnSum first second) where
  left := ⟨rfl, by decide, (1, 0), by simp [columnSum], rfl⟩
  right := ⟨rfl, by decide, (2, 1), by simp [columnSum], rfl⟩
  offset := rfl

theorem sum_correct : (Fits (columnSum [some 1, some 2] [some 3, some 4]) (blockOf 2 .asc) ->
      Correct (columnSum [some 1, some 2] [some 3, some 4]) (blockOf 2 .asc)) ∧
    (Live (columnSum [some 1, some 2] [some 3, some 4]) (blockOf 2 .asc) ->
      (Correct (columnSum [some 1, some 2] [some 3, some 4]) (blockOf 2 .asc) ↔
        Fits (columnSum [some 1, some 2] [some 3, some 4]) (blockOf 2 .asc))) :=
  correct_iff (columnSum_prepared _ _) (by decide)

/-- The first of two rows is NULL: its cell gets the number of the second row. -/
theorem null_overwritten : ¬ ∀ (sas : SArithmeticSupport) (pCtx : SQLFunctionCtx), Prepared sas ->
    0 < pCtx.size -> Correct sas pCtx := by
  intro holds
  obtain ⟨⟨after, runs, -, -, -, values⟩, -⟩ :=
    holds (columnSum [none, some 2] [some 3, some 4]) (blockOf 2 .asc) (columnSum_prepared _ _)
      (by decide)
  have memory : (arithmeticFunction (columnSum [none, some 2] [some 3, some 4])
      (blockOf 2 .asc)).map SQLFunctionCtx.memory = some [(0, some 6), (0, none)] := by
    decide +kernel
  rw [runs, map_some, some.injEq] at memory
  have second := values 1 (by decide)
  rw [memory] at second
  cases second

end Luomi.Client.ArithmeticResults
