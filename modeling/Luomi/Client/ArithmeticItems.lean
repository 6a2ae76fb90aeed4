import Luomi.Client.ArithmeticRows

/-!
# The values of an arithmetic select item

Which expressions give each row its value in one call for the whole block, and that the calls
for one row after the other always do.
-/

namespace Luomi.Client.ArithmeticItems

open Aggregates Arithmetic ArithmeticRows

def isConstant : SyntaxNode -> Bool
  | .value _ => true
  | _ => false

def isOperator : SyntaxNode -> Bool
  | .expr _ _ _ => true
  | _ => false

def typeOf : SyntaxNode -> DataType
  | .expr _ _ _ => .double
  | .col pSchema => pSchema.type
  | .value pVal => pVal.nType

/-- The cell that is checked for a row: behind a constant it is whatever is there. -/
def seenCell (column : Int -> Nat -> Cell) : SyntaxNode -> Nat -> Cell
  | .value pVal, i => if i = 0 then some pVal.number else pVal.behind i
  | node, i => valueOf column node i

/-- The result at a row, where the checks decide what is NULL. -/
def readOf (column : Int -> Nat -> Cell) (pLeft : SyntaxNode) (optr : BinaryOp)
    (pRight : SyntaxNode) (i : Nat) : Cell :=
  match seenCell column pLeft i, seenCell column pRight i with
  | some _, some _ => valueOf column (.expr pLeft optr pRight) i
  | _, _ => none

def Found (source : Int -> Option (Nat -> Cell)) (column : Int -> Nat -> Cell) : SyntaxNode -> Prop
  | .expr pLeft _ pRight => Found source column pLeft ∧ Found source column pRight
  | .col pSchema =>
    pSchema.type.isNumber = true ∧ source pSchema.colId = some (column pSchema.colId)
  | .value pVal => pVal.nType.isNumber = true

def Holds (column : Int -> Nat -> Cell) (num : Nat) (node : SyntaxNode) (operand : Operand) : Prop
    :=
  (if isConstant node then operand.num = 1 else operand.num = num) ∧
    ∀ i < num, operand.cells i = some (seenCell column node i)

def placeOf (num : Nat) (operand : Operand) (i : Nat) : Nat :=
  if operand.num = num then i else 0

variable {column : Int -> Nat -> Cell} {i num : Nat} {node pLeft pRight : SyntaxNode}
  {left right : Operand} {optr : BinaryOp}

theorem seenCell_eq
    (atFirst : isConstant node = true -> i = 0) : seenCell column node i = valueOf column node i := by
  cases node with
  | expr pLeft optr pRight => rfl
  | col pSchema => rfl
  | value pVal =>
    obtain rfl := atFirst rfl
    rfl

theorem value_of_seen (seen : ∃ number, seenCell column node i = some number) :
    ∃ number, valueOf column node i = some number := by
  cases node with
  | expr pLeft optr pRight => exact seen
  | col pSchema => exact seen
  | value pVal => exact ⟨pVal.number, rfl⟩

variable {operand : Operand}

theorem holds_place (holds : Holds column num node operand) (small : i < num) :
    operand.cells (placeOf num operand i) = some (valueOf column node i) := by
  obtain ⟨size, cells⟩ := holds
  cases isConst : isConstant node with
  | false =>
    rw [isConst, if_neg Bool.false_ne_true] at size
    rw [placeOf, if_pos size, cells i small, seenCell_eq (by simp [isConst])]
  | true =>
    rw [isConst] at size
    have same : valueOf column node i = valueOf column node 0 := by
      cases node with
      | expr pLeft optr pRight => cases isConst
      | col pSchema => cases isConst
      | value pVal => rfl
    have isFirst : placeOf num operand i = 0 := by
      rw [placeOf]
      split
      · rw [if_pos rfl] at size
        omega
      · rfl
    rw [isFirst, cells 0 (by omega), seenCell_eq fun _ => rfl, same]

theorem rowCell_eq (optr : BinaryOp) (leftHolds : Holds column num pLeft left)
    (rightHolds : Holds column num pRight right) (small : i < num) :
    rowCell optr left right (placeOf num left i) (placeOf num right i) i =
      some (readOf column pLeft optr pRight i) := by
  rw [rowCell, leftHolds.2 i small, rightHolds.2 i small, holds_place leftHolds small,
    holds_place rightHolds small, readOf, valueOf]
  cases isLeft : seenCell column pLeft i with
  | none => rfl
  | some a =>
    cases isRight : seenCell column pRight i with
    | none => rfl
    | some b =>
      obtain ⟨leftNumber, isLeftNumber⟩ := value_of_seen ⟨a, isLeft⟩
      obtain ⟨rightNumber, isRightNumber⟩ := value_of_seen ⟨b, isRight⟩
      rw [isLeftNumber, isRightNumber]

theorem apply_comm (commutes : optr = .add ∨ optr = .multiply) (a b : ℚ) :
    optr.apply a b = optr.apply b a := by
  rcases commutes with rfl | rfl
  · exact add_comm a b
  · exact mul_comm a b

theorem readOf_comm
    (commutes : optr = .add ∨ optr = .multiply) (pLeft pRight : SyntaxNode) (i : Nat) :
    readOf column pRight optr pLeft i = readOf column pLeft optr pRight i := by
  rw [readOf, readOf, valueOf, valueOf]
  cases seenCell column pLeft i with
  | none => cases seenCell column pRight i <;> rfl
  | some a =>
    cases seenCell column pRight i with
    | none => rfl
    | some b =>
      cases valueOf column pLeft i with
      | none => cases valueOf column pRight i <;> rfl
      | some leftNumber =>
        cases valueOf column pRight i with
        | none => rfl
        | some rightNumber => exact congrArg some (apply_comm commutes _ _)

def calcRow (optr : BinaryOp) (leftType rightType : DataType) (num : Nat) (left right : Operand)
    (i : Nat) : Option Cell :=
  if (optr = .add ∨ optr = .multiply) ∧ exchanged leftType rightType = true then
    rowCell optr right left (placeOf num right i) (placeOf num left i) i
  else rowCell optr left right (placeOf num left i) (placeOf num right i) i

theorem calcRow_eq (optr : BinaryOp) (leftType rightType : DataType)
    (leftHolds : Holds column num pLeft left) (rightHolds : Holds column num pRight right)
    (small : i < num) : calcRow optr leftType rightType num left right i =
      some (readOf column pLeft optr pRight i) := by
  rw [calcRow]
  split
  next both => rw [rowCell_eq optr rightHolds leftHolds small, readOf_comm both.1]
  next => exact rowCell_eq optr leftHolds rightHolds small

variable {number : ℚ}

theorem rowCell_number {leftAt rightAt : Nat} (isNumber : rowCell optr left right leftAt rightAt i = some (some number)) :
    (∃ a, left.cells i = some (some a)) ∧ ∃ b, right.cells i = some (some b) := by
  rw [rowCell] at isNumber
  cases isLeft : left.cells i with
  | none =>
    rw [isLeft] at isNumber
    cases isNumber
  | some cell =>
    cases cell with
    | none =>
      rw [isLeft] at isNumber
      cases isNumber
    | some a =>
      cases isRight : right.cells i with
      | none =>
        rw [isLeft, isRight] at isNumber
        cases isNumber
      | some other =>
        cases other with
        | none =>
          rw [isLeft, isRight] at isNumber
          cases isNumber
        | some b => exact ⟨⟨a, rfl⟩, b, rfl⟩

variable {leftType rightType : DataType}

theorem calcRow_number
    (isNumber : calcRow optr leftType rightType num left right i = some (some number)) :
    (∃ a, left.cells i = some (some a)) ∧ ∃ b, right.cells i = some (some b) := by
  rw [calcRow] at isNumber
  split at isNumber
  next => exact (rowCell_number isNumber).symm
  next => exact rowCell_number isNumber

/-- At least one operand has a cell for each row, and the other one has a single number
where it has not. -/
structure Sizes (num : Nat) (left right : Operand) : Prop where
  leftNum : left.num = num ∨ left.num = 1
  rightNum : right.num = num ∨ right.num = 1
  one : left.num = num ∨ right.num = num

theorem Sizes.symm (sizes : Sizes num left right) :
    Sizes num right left := ⟨sizes.rightNum, sizes.leftNum, sizes.one.symm⟩

theorem arrayListOp_eq (sizes : Sizes num left right)
    (optr : BinaryOp) (order : Order) (out : Output) :
    arrayListOp optr order left right out = placeRows (stepOf order)
      (fun i => rowCell optr left right (placeOf num left i) (placeOf num right i) i)
      (indices order num) out := by
  obtain ⟨isLeft, isRight, one⟩ := sizes
  rw [arrayListOp]
  by_cases same : left.num = right.num
  · have isNum : right.num = num := by omega
    rw [if_pos same, isNum]
    simp only [placeOf, isNum, same, if_true]
  · rw [if_neg same]
    by_cases single : left.num = 1
    · have isNum : right.num = num := by omega
      rw [if_pos single, isNum]
      have different : left.num ≠ num := by omega
      simp only [placeOf, isNum, if_true, if_neg different]
    · have isNum : left.num = num := by omega
      have isSingle : right.num = 1 := by omega
      rw [if_neg single, if_pos isSingle, isNum]
      have different : right.num ≠ num := by omega
      simp only [placeOf, isNum, if_true, if_neg different]

/-- The loop of `calc_fn_i32_i32_add` that only counts up. -/
def CountsUp (optr : BinaryOp) (leftType rightType : DataType) (left right : Operand) : Prop :=
  optr = .add ∧ leftType = .int ∧ rightType = .int ∧ left.num ≠ right.num

theorem calcFn_eq (sizes : Sizes num left right)
    (optr : BinaryOp) (leftType rightType : DataType) (order : Order) (out : Output)
    (plain : order = .desc -> ¬ CountsUp optr leftType rightType left right) :
    calcFn optr leftType rightType order left right out =
      placeRows (stepOf order) (calcRow optr leftType rightType num left right)
        (indices order num) out := by
  rw [calcFn]
  by_cases swaps : (optr = .add ∨ optr = .multiply) ∧ exchanged leftType rightType = true
  · have rowIs : calcRow optr leftType rightType num left right = fun i =>
        rowCell optr right left (placeOf num right i) (placeOf num left i) i := by
      funext i
      rw [calcRow, if_pos swaps]
    rw [if_pos swaps, rowIs, <- arrayListOp_eq sizes.symm]
  · have rowIs : calcRow optr leftType rightType num left right = fun i =>
        rowCell optr left right (placeOf num left i) (placeOf num right i) i := by
      funext i
      rw [calcRow, if_neg swaps]
    rw [if_neg swaps, rowIs, <- arrayListOp_eq sizes]
    by_cases ints : optr = .add ∧ leftType = .int ∧ rightType = .int
    · rw [if_pos ints]
      obtain ⟨rfl, rfl, rfl⟩ := ints
      cases order with
      | asc => rfl
      | desc =>
        have same : left.num = right.num := by
          by_contra different
          exact plain rfl ⟨rfl, rfl, rfl, different⟩
        rw [calcFnI32I32Add, arrayListOp, if_pos same, if_pos same]
    · rw [if_neg ints]

/-- Beside a constant there is an operand with a cell for each row, or there is one row. -/
def OneOfRows (num : Nat) (pLeft pRight : SyntaxNode) : Prop :=
  isConstant pLeft = true -> isConstant pRight = true -> num = 1

def FitsAsc (column : Int -> Nat -> Cell) (num : Nat) : SyntaxNode -> Prop
  | .expr pLeft optr pRight =>
    FitsAsc column num pLeft ∧ FitsAsc column num pRight ∧ OneOfRows num pLeft pRight ∧
      ((∀ i < num, ∃ number, readOf column pLeft optr pRight i = some number) ∨
        ∀ i < num, valueOf column (.expr pLeft optr pRight) i = none)
  | .col _ | .value _ => True

/-- From new to old: there is one row, or one operator, for which no row but the first one of
the block is NULL; a sum of `int` with a constant `int` is none of these. -/
def FitsDesc (column : Int -> Nat -> Cell) (num : Nat) (pLeft : SyntaxNode) (optr : BinaryOp)
    (pRight : SyntaxNode) : Prop :=
  num = 1 ∨ (isOperator pLeft = false ∧ isOperator pRight = false ∧
    ¬ (isConstant pLeft = true ∧ isConstant pRight = true) ∧
    ¬ (optr = .add ∧ typeOf pLeft = .int ∧ typeOf pRight = .int ∧
      (isConstant pLeft = true ∨ isConstant pRight = true)) ∧
    ∀ i < num, 0 < i -> ∃ number, readOf column pLeft optr pRight i = some number)

theorem holds_num
    (holds : Holds column num node operand) : operand.num = num ∨ operand.num = 1 := by
  have size := holds.1
  split at size
  · exact Or.inr size
  · exact Or.inl size

theorem holds_sizes (leftHolds : Holds column num pLeft left)
    (rightHolds : Holds column num pRight right) (one : OneOfRows num pLeft pRight) :
    Sizes num left right := by
  refine ⟨holds_num leftHolds, holds_num rightHolds, ?_⟩
  have leftSize := leftHolds.1
  have rightSize := rightHolds.1
  cases isLeft : isConstant pLeft with
  | false =>
    rw [isLeft] at leftSize
    exact Or.inl leftSize
  | true =>
    cases isRight : isConstant pRight with
    | false =>
      rw [isRight] at rightSize
      exact Or.inr rightSize
    | true =>
      have single := one isLeft isRight
      rw [isLeft] at leftSize
      exact Or.inl (leftSize.trans single.symm)

theorem calcOperands_placed {order : Order} (optr : BinaryOp)
    (out : Output) (numbers : leftType.isNumber = true ∧ rightType.isNumber = true)
    (leftHolds : Holds column num pLeft left) (rightHolds : Holds column num pRight right)
    (sizes : Sizes num left right)
    (plain : order = .desc -> ¬ CountsUp optr leftType rightType left right)
    (inPlace : InPlace order num (readOf column pLeft optr pRight))
    (same : ∀ i < num, readOf column pLeft optr pRight i =
      valueOf column (.expr pLeft optr pRight) i) :
    ∃ after, calcOperands order optr (some (leftType, left)) (some (rightType, right)) out =
        some after ∧ Placed order num (valueOf column (.expr pLeft optr pRight)) out after := by
  obtain ⟨after, runs, slots, values⟩ := placeRows_inPlace out (fun i small =>
    calcRow_eq optr leftType rightType leftHolds rightHolds small) inPlace
  refine ⟨after, ?_, slots, fun i small => ?_⟩
  · rw [calcOperands, tGetBiConsumerFn, numbers.1, numbers.2]
    simp only [Bool.and_self, if_true]
    rw [calcFn_eq sizes _ _ _ _ _ plain, runs]
  · rw [values i small, same i small]

theorem asc_inPlace (rows : (∀ i < num, ∃ number, readOf column pLeft optr pRight i = some number) ∨
      ∀ i < num, valueOf column (.expr pLeft optr pRight) i = none) :
    InPlace .asc num (readOf column pLeft optr pRight) ∧
      ∀ i < num, readOf column pLeft optr pRight i =
        valueOf column (.expr pLeft optr pRight) i := by
  have cases_ : ∀ i, readOf column pLeft optr pRight i =
      valueOf column (.expr pLeft optr pRight) i ∨ readOf column pLeft optr pRight i = none := by
    intro i
    rw [readOf]
    cases seenCell column pLeft i with
    | none => exact Or.inr rfl
    | some a =>
      cases seenCell column pRight i with
      | none => exact Or.inr rfl
      | some b => exact Or.inl rfl
  rcases rows with numbers | nulls
  · refine ⟨Or.inl numbers, fun i small => ?_⟩
    obtain ⟨number, isNumber⟩ := numbers i small
    rcases cases_ i with same | none_
    · exact same
    · rw [isNumber] at none_
      cases none_
  · have none_ : ∀ i < num, readOf column pLeft optr pRight i = none := by
      intro i small
      rcases cases_ i with same | none_
      · rw [same, nulls i small]
      · exact none_
    exact ⟨Or.inr none_, fun i small => by rw [none_ i small, nulls i small]⟩

variable {after : Output}

theorem buffer_placed {order : Order} {value : Nat -> Cell}
    (rows : order = .desc -> num = 1) (placed : Placed order num value ⟨0, []⟩ after) :
    ∃ operand, buffer num after = some operand ∧ operand.num = num ∧
      ∀ i < num, operand.cells i = some (value i) := by
  obtain ⟨⟨writes, written, slots⟩, values⟩ := placed
  have slotIs : ∀ i < num, slotOf order 0 num i = i := by
    intro i small
    cases order with
    | asc => simp [slotOf]
    | desc =>
      have single := rows rfl
      simp only [slotOf]
      omega
  simp only [List.append_nil] at written
  refine ⟨_, if_pos fun write isIn => ?_, rfl, fun i small => ?_⟩
  · rw [written] at isIn
    obtain ⟨i, small, isSlot⟩ := (slots write.1).mp (List.mem_map_of_mem isIn)
    simp only at isSlot
    rw [slotIs i small] at isSlot
    omega
  · have isValue := values i small
    simp only at isValue
    rw [slotIs i small] at isValue
    exact isValue

section

variable {source : Int -> Option (Nat -> Cell)}

theorem operandOf_leaf {column : Int -> Nat -> Cell} {order : Order} {num : Nat} {node : SyntaxNode}
    (found : Found source column node) (leaf : isOperator node = false) :
    ∃ operand, operandOf source order num node = some (typeOf node, operand) ∧
      (typeOf node).isNumber = true ∧ Holds column num node operand := by
  cases node with
  | expr pLeft optr pRight => cases leaf
  | col pSchema =>
    obtain ⟨isNumber, isThere⟩ := found
    refine ⟨⟨num, fun i => some (column pSchema.colId i)⟩, ?_, isNumber, rfl, fun i _ => rfl⟩
    rw [operandOf, isThere]
    rfl
  | value pVal =>
    refine ⟨_, rfl, found, rfl, fun i _ => ?_⟩
    simp only [seenCell]
    split <;> rfl

theorem operandOf_expr {order : Order} (rows : order = .desc -> num = 1)
    (runs : calcOperands order optr (operandOf source order num pLeft) (operandOf source order num pRight) ⟨0, []⟩ = some after)
    (placed : Placed order num (valueOf column (.expr pLeft optr pRight)) ⟨0, []⟩ after) :
    ∃ operand, operandOf source order num (.expr pLeft optr pRight) = some (.double, operand) ∧
      Holds column num (.expr pLeft optr pRight) operand := by
  obtain ⟨operand, isBuffer, size, cells⟩ := buffer_placed rows placed
  refine ⟨operand, ?_, size, cells⟩
  rw [operandOf, runs, Option.bind_some, isBuffer]
  rfl

theorem operandOf_asc (found : Found source column node) (fits : FitsAsc column num node) :
    ∃ operand, operandOf source .asc num node = some (typeOf node, operand) ∧
      (typeOf node).isNumber = true ∧ Holds column num node operand := by
  induction node with
  | col pSchema => exact operandOf_leaf found rfl
  | value pVal => exact operandOf_leaf found rfl
  | expr pLeft optr pRight leftIh rightIh =>
    obtain ⟨leftFits, rightFits, one, rows⟩ := fits
    obtain ⟨left, isLeft, leftNumber, leftHolds⟩ := leftIh found.1 leftFits
    obtain ⟨right, isRight, rightNumber, rightHolds⟩ := rightIh found.2 rightFits
    obtain ⟨inPlace, same⟩ := asc_inPlace rows
    obtain ⟨after, runs, placed⟩ := calcOperands_placed optr ⟨0, []⟩ ⟨leftNumber, rightNumber⟩
      leftHolds rightHolds (holds_sizes leftHolds rightHolds one)
      (fun isDesc => by cases isDesc) inPlace same
    rw [<- isLeft, <- isRight] at runs
    obtain ⟨operand, isOperand, holds⟩ :=
      operandOf_expr (fun isDesc => by cases isDesc) runs placed
    exact ⟨operand, isOperand, rfl, holds⟩

end

theorem single_inPlace (column : Int -> Nat -> Cell) (order : Order) (pLeft : SyntaxNode)
    (optr : BinaryOp) (pRight : SyntaxNode) : InPlace order 1 (readOf column pLeft optr pRight) ∧
      ∀ i < 1, readOf column pLeft optr pRight i = valueOf column (.expr pLeft optr pRight) i := by
  have same : ∀ i < 1, readOf column pLeft optr pRight i =
      valueOf column (.expr pLeft optr pRight) i := by
    intro i small
    obtain rfl : i = 0 := by omega
    rw [readOf, seenCell_eq fun _ => rfl, seenCell_eq fun _ => rfl, valueOf]
    cases valueOf column pLeft 0 with
    | none => rfl
    | some a =>
      cases valueOf column pRight 0 with
      | none => rfl
      | some b => rfl
  refine ⟨?_, same⟩
  cases order with
  | asc =>
    cases isCell : readOf column pLeft optr pRight 0 with
    | none =>
      refine Or.inr fun i small => ?_
      rwa [show i = 0 by omega]
    | some number =>
      refine Or.inl fun i small => ⟨number, ?_⟩
      rwa [show i = 0 by omega]
  | desc => exact fun i small positive => by omega

theorem single_plain
    (leftHolds : Holds column 1 pLeft left) (rightHolds : Holds column 1 pRight right) :
    ¬ CountsUp optr leftType rightType left right := by
  rintro ⟨-, -, -, different⟩
  have leftNum := holds_num leftHolds
  have rightNum := holds_num rightHolds
  omega

section

variable {source : Int -> Option (Nat -> Cell)} {column : Int -> Nat -> Cell} {order : Order}

theorem operandOf_single {node : SyntaxNode} (found : Found source column node) :
    ∃ operand, operandOf source order 1 node = some (typeOf node, operand) ∧
      (typeOf node).isNumber = true ∧ Holds column 1 node operand := by
  induction node with
  | col pSchema => exact operandOf_leaf found rfl
  | value pVal => exact operandOf_leaf found rfl
  | expr pLeft optr pRight leftIh rightIh =>
    obtain ⟨left, isLeft, leftNumber, leftHolds⟩ := leftIh found.1
    obtain ⟨right, isRight, rightNumber, rightHolds⟩ := rightIh found.2
    obtain ⟨inPlace, same⟩ := single_inPlace column order pLeft optr pRight
    have sizes := holds_sizes leftHolds rightHolds fun _ _ => rfl
    obtain ⟨after, runs, placed⟩ := calcOperands_placed optr ⟨0, []⟩ ⟨leftNumber, rightNumber⟩
      leftHolds rightHolds sizes (fun _ => single_plain leftHolds rightHolds) inPlace same
    rw [<- isLeft, <- isRight] at runs
    obtain ⟨operand, isOperand, holds⟩ := operandOf_expr (fun _ => rfl) runs placed
    exact ⟨operand, isOperand, rfl, holds⟩

theorem traverse_single {pLeft pRight : SyntaxNode} (optr : BinaryOp) (out : Output)
    (leftFound : Found source column pLeft) (rightFound : Found source column pRight) :
    ∃ after, tSQLBinaryExprCalcTraverse source order 1 pLeft optr pRight out = some after ∧
      Placed order 1 (valueOf column (.expr pLeft optr pRight)) out after := by
  obtain ⟨left, isLeft, leftNumber, leftHolds⟩ := @operandOf_single _ _ order _ leftFound
  obtain ⟨right, isRight, rightNumber, rightHolds⟩ := @operandOf_single _ _ order _ rightFound
  obtain ⟨inPlace, same⟩ := single_inPlace column order pLeft optr pRight
  rw [tSQLBinaryExprCalcTraverse, isLeft, isRight]
  exact calcOperands_placed optr out ⟨leftNumber, rightNumber⟩ leftHolds rightHolds
    (holds_sizes leftHolds rightHolds fun _ _ => rfl) (fun _ => single_plain leftHolds rightHolds)
      inPlace
    same

end

end Luomi.Client.ArithmeticItems
