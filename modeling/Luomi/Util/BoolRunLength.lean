import Luomi.Util.BoolCodec

/-!
# Run-length encoding of bools (`tsCompressBoolRLEImp`, `tsDecompressBoolRLEImp`)

A byte holds a run: its value in the lowest bit and its length in the seven bits above, so
that a run of more than 127 equal values takes several bytes.
-/

namespace Luomi.BoolRunLength
open BoolCodec

/-- `INT8MASK(7)`. -/
def longestRun : UInt8 := 127

/-- The inner loop: the length of the run of `num` that `counter` values of are counted,
and what is left of the input. -/
def countRun (num : UInt8) : UInt8 -> List UInt8 -> UInt8 × List UInt8
  | counter, [] => (counter, [])
  | counter, value :: rest =>
    if value = num then
      if counter + 1 = longestRun then (counter + 1, rest)
      else countRun num (counter + 1) rest
    else (counter, value :: rest)

theorem countRun_shorter (num : UInt8) (counter : UInt8) (input : List UInt8) :
    (countRun num counter input).2.length ≤ input.length := by
  induction input generalizing counter with
  | nil => rfl
  | cons value rest ih =>
    unfold countRun
    split
    · split
      · exact Nat.le_succ _
      · exact Nat.le_succ_of_le (ih (counter + 1))
    · exact Nat.le_refl _

/-- One byte for one run; `none` is the exit on a wrong value. -/
def encodeRun (num counter : UInt8) : Option UInt8 :=
  if num = 1 then some ((1 : UInt8) ||| (counter <<< 1))
  else if num = 0 then some ((counter <<< 1) ||| 0)
  else none

def tsCompressBoolRLEImp : List UInt8 -> Option (List UInt8)
  | [] => some []
  | num :: rest => do
      let run := countRun num 1 rest
      let byte <- encodeRun num run.1
      let output <- tsCompressBoolRLEImp run.2
      some (byte :: output)
termination_by input => input.length
decreasing_by
  exact Nat.lt_succ_of_le (countRun_shorter num 1 rest)

/-- `(encode >> 1) & INT8MASK(7)`, where `encode` is a signed character. -/
def runLength (encode : UInt8) : Nat :=
  (((encode.toBitVec.signExtend 32).sshiftRight 1) &&& 127).toNat

/-- The loop; `output` is what is written so far.  It has no result when it reads behind
the input. -/
def decodeRuns (nelements : Nat) : List UInt8 -> List UInt8 -> Option (List UInt8)
  | [], _ => none
  | encode :: rest, output =>
    let output := output ++ List.replicate (runLength encode) (encode &&& 1)
    if nelements ≤ output.length then some output else decodeRuns nelements rest output

def tsDecompressBoolRLEImp (input : List UInt8) (nelements : Nat) : Option (List UInt8) :=
  decodeRuns nelements input []

theorem encodeRun_decodes {num counter : UInt8} (binary : num = 0 ∨ num = 1)
    (short : counter ≤ longestRun) :
    ∃ byte, encodeRun num counter = some byte ∧ runLength byte = counter.toNat ∧
      byte &&& 1 = num := by
  have decodes : ∀ c : Fin 128, runLength ((1 : UInt8) ||| (UInt8.ofNat c <<< 1)) = c ∧
      ((1 : UInt8) ||| (UInt8.ofNat c <<< 1)) &&& 1 = 1 ∧ runLength ((UInt8.ofNat c <<< 1) ||| 0) = c ∧
      ((UInt8.ofNat c <<< 1) ||| 0) &&& 1 = 0 := by decide +kernel
  have bound : counter.toNat < 128 := Nat.lt_succ_of_le (UInt8.le_iff_toNat_le.mp short)
  have read := decodes ⟨counter.toNat, bound⟩
  simp only [UInt8.ofNat_toNat] at read
  obtain ⟨oneLength, oneValue, zeroLength, zeroValue⟩ := read
  rcases binary with rfl | rfl
  · exact ⟨_, rfl, zeroLength, zeroValue⟩
  · exact ⟨_, rfl, oneLength, oneValue⟩

theorem countRun_takes (num : UInt8) {counter : UInt8} (short : counter < longestRun)
    (input : List UInt8) :
    (countRun num counter input).1 ≤ longestRun ∧ counter ≤ (countRun num counter input).1 ∧
      List.replicate counter.toNat num ++ input =
        List.replicate (countRun num counter input).1.toNat num ++
          (countRun num counter input).2 := by
  induction input generalizing counter with
  | nil => exact ⟨UInt8.le_of_lt short, UInt8.le_refl _, rfl⟩
  | cons value rest ih =>
    have bound : counter.toNat < 127 := UInt8.lt_iff_toNat_lt.mp short
    have next : (counter + 1).toNat = counter.toNat + 1 := by
      rw [UInt8.toNat_add, UInt8.toNat_one]
      omega
    have above : counter ≤ counter + 1 := by
      rw [UInt8.le_iff_toNat_le, next]
      exact Nat.le_succ _
    unfold countRun
    split
    next same =>
      have counted : List.replicate counter.toNat num ++ value :: rest =
          List.replicate (counter + 1).toNat num ++ rest := by
        rw [same, next, List.replicate_succ', List.append_assoc]
        rfl
      split
      next full => exact ⟨full ▸ UInt8.le_refl _, above, counted⟩
      next more =>
        have further : counter + 1 < longestRun := by
          rw [UInt8.lt_iff_toNat_lt, next]
          have unequal : (counter + 1).toNat ≠ longestRun.toNat :=
            fun equal => more (UInt8.toNat_inj.mp equal)
          have limit : longestRun.toNat = 127 := rfl
          omega
        obtain ⟨least, most, split⟩ := ih further
        exact ⟨least, UInt8.le_trans above most, counted.trans split⟩
    next => exact ⟨UInt8.le_of_lt short, UInt8.le_refl _, rfl⟩

theorem decodeRuns_step {nelements : Nat} {byte num counter : UInt8} {rest done : List UInt8}
    (length : runLength byte = counter.toNat) (value : byte &&& 1 = num) :
    decodeRuns nelements (byte :: rest) done =
      if nelements ≤ (done ++ List.replicate counter.toNat num).length then
        some (done ++ List.replicate counter.toNat num)
      else decodeRuns nelements rest (done ++ List.replicate counter.toNat num) := by
  rw [decodeRuns, length, value]

theorem rle_decodes (input : List UInt8) (nonEmpty : input ≠ [])
    (binary : ∀ value ∈ input, value = 0 ∨ value = 1) :
    ∃ output, tsCompressBoolRLEImp input = some output ∧ ∀ done,
      decodeRuns (done ++ input).length output done = some (done ++ input) := by
  induction input using tsCompressBoolRLEImp.induct with
  | case1 => exact absurd rfl nonEmpty
  | case2 num rest run ih =>
    obtain ⟨short, _, split⟩ := @countRun_takes num 1 (by decide) rest
    obtain ⟨byte, encoded, length, value⟩ :=
      encodeRun_decodes (binary num List.mem_cons_self) short
    have whole : num :: rest = List.replicate run.1.toNat num ++ run.2 := split
    rw [whole] at binary
    by_cases last : run.2 = []
    · refine ⟨[byte], ?_, fun done => ?_⟩
      · rw [tsCompressBoolRLEImp]
        change (encodeRun num run.1 >>= fun byte => tsCompressBoolRLEImp run.2 >>= _) = _
        rw [encoded, last, tsCompressBoolRLEImp]
        rfl
      · rw [whole, last, List.append_nil, decodeRuns_step length value, if_pos (Nat.le_refl _)]
    · obtain ⟨output, later, decodes⟩ := ih last
        (fun value member => binary value (List.mem_append_right _ member))
      refine ⟨byte :: output, ?_, fun done => ?_⟩
      · rw [tsCompressBoolRLEImp]
        change (encodeRun num run.1 >>= fun byte => tsCompressBoolRLEImp run.2 >>= _) = _
        rw [encoded, later]
        rfl
      · have behind := decodes (done ++ List.replicate run.1.toNat num)
        rw [List.append_assoc] at behind
        have more : ¬(done ++ (List.replicate run.1.toNat num ++ run.2)).length ≤
            (done ++ List.replicate run.1.toNat num).length := by
          have positive := List.length_pos_iff.mpr last
          rw [<- List.append_assoc, List.length_append]
          omega
        rw [whole, decodeRuns_step length value, if_neg more, behind]

/-- The bool codecs give every column back; the packed one takes one byte for every four
values begun. -/
theorem boolCodecs_restore (input : List UInt8) :
    ((∀ value ∈ input, value = 0 ∨ value = 1 ∨ value = boolNull) ->
      ∃ output, tsCompressBoolImp input = some output ∧ output.length = (input.length + 3) / 4 ∧
        tsDecompressBoolImp output input.length = some input) ∧
    (input ≠ [] -> (∀ value ∈ input, value = 0 ∨ value = 1) ->
      ∃ output, tsCompressBoolRLEImp input = some output ∧
        tsDecompressBoolRLEImp output input.length = some input) := by
  constructor
  · intro allowed
    obtain ⟨output, encoded, holds⟩ := tsCompressBoolImp_holds allowed
    have decoded := decodeLoop_holds holds allowed [] input.length 0 (Nat.zero_add _)
    rw [List.append_nil, List.drop_zero] at decoded
    exact ⟨output, encoded, holds.length, decoded⟩
  · intro nonEmpty binary
    obtain ⟨output, encoded, decodes⟩ := rle_decodes input nonEmpty binary
    exact ⟨output, encoded, decodes []⟩

theorem boolCodecs_restore_run :
    (∃ output, tsCompressBoolImp [1, 0, 2, 1, 1] = some output ∧ output.length = 2 ∧
      tsDecompressBoolImp output 5 = some [1, 0, 2, 1, 1]) ∧
    (∃ output, tsCompressBoolRLEImp [1, 1, 0] = some output ∧
      tsDecompressBoolRLEImp output 3 = some [1, 1, 0]) :=
  ⟨(boolCodecs_restore [1, 0, 2, 1, 1]).1 (by simp [boolNull]),
    (boolCodecs_restore [1, 1, 0]).2 (by simp) (by simp)⟩

end Luomi.BoolRunLength
