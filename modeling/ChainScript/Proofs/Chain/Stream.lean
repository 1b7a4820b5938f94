import ChainScript.Chain.Stream

/-! # Slices of the stream

Every block has 64 bytes, so byte `i` of the stream stands in block `i / 64`, and a slice, which is
cut out of the blocks that hold it, is the bytes of the stream from its start on.
-/

namespace ChainScript.Stream
set_option autoImplicit false

/-! ## Blocks -/

@[simp] theorem size_quarterRound (a b c d : Nat) (s : Array UInt32) :
    (quarterRound a b c d s).size = s.size := by
  simp [quarterRound]

@[simp] theorem size_doubleRound (s : Array UInt32) : (doubleRound s).size = s.size := by
  simp [doubleRound]

@[simp] theorem size_doubleRounds (count : Nat) (s : Array UInt32) :
    (doubleRounds count s).size = s.size := by
  induction count generalizing s with
  | zero => rfl
  | succ count ih => rw [doubleRounds, ih, size_doubleRound]

@[simp] theorem length_keyWords (count : Nat) (s : UInt64) : (keyWords count s).length = count := by
  induction count generalizing s with
  | zero => rfl
  | succ count ih => rw [keyWords, List.length_cons, ih]

theorem length_inputWords (seed : UInt64) (number : Nat) : (inputWords seed number).length = 16 := by
  simp [inputWords, constants]

theorem length_flatMap_bytesOfWord (ws : List UInt32) :
    (ws.flatMap bytesOfWord).length = 4 * ws.length := by
  induction ws with
  | nil => rfl
  | cons w ws ih =>
    have hword : (bytesOfWord w).length = 4 := rfl
    rw [List.flatMap_cons, List.length_append, ih, hword, List.length_cons]
    omega

theorem length_block (seed : UInt64) (number : Nat) : (block seed number).length = blockSize := by
  have hinput := length_inputWords seed number
  have hmixed : (doubleRounds 6 (inputWords seed number).toArray).toList.length = 16 := by
    rw [Array.length_toList, size_doubleRounds, List.size_toArray, hinput]
  rw [block, length_flatMap_bytesOfWord, List.length_zipWith, hmixed, hinput]
  rfl

/-! ## Bytes -/

theorem block_eq (seed : UInt64) (number : Nat) :
    block seed number = (List.range blockSize).map fun i => byte seed (number * blockSize + i) := by
  have hlength := length_block seed number
  apply List.ext_getElem
  · rw [hlength, List.length_map, List.length_range]
  · intro i hi hi'
    have hlt : i < blockSize := hlength ▸ hi
    have hpos : 0 < blockSize := by decide
    have hblock : (number * blockSize + i) / blockSize = number := by
      rw [Nat.mul_comm, Nat.mul_add_div hpos, Nat.div_eq_of_lt hlt, Nat.add_zero]
    have hoffset : (number * blockSize + i) % blockSize = i := by
      rw [Nat.mul_comm, Nat.mul_add_mod, Nat.mod_eq_of_lt hlt]
    rw [List.getElem_map, List.getElem_range, byte, hblock, hoffset]
    simp [hi]

/-- Blocks in a row are the bytes from the first block on. -/
theorem blocks_eq (seed : UInt64) (first count : Nat) :
    ((List.range count).flatMap fun k => block seed (first + k)) =
      (List.range (count * blockSize)).map fun i => byte seed (first * blockSize + i) := by
  induction count with
  | zero => simp
  | succ count ih =>
    have hplace : ∀ i, (first + count) * blockSize + i =
        first * blockSize + (count * blockSize + i) := by
      intro i
      rw [Nat.add_mul, Nat.add_assoc]
    rw [List.range_succ, List.flatMap_append, ih, List.flatMap_singleton, block_eq, Nat.succ_mul,
      List.range_add, List.map_append, List.map_map]
    simp only [hplace, Function.comp_def]

/-- A slice is the bytes of the stream from its start on: the blocks that are read hold all of it. -/
theorem slice_eq (seed : UInt64) (start count : Nat) :
    slice seed start count = (List.range count).map fun i => byte seed (start + i) := by
  have hcover : start % blockSize + count ≤
      (start % blockSize + count + blockSize - 1) / blockSize * blockSize := by
    unfold blockSize
    omega
  have hstart := Nat.div_add_mod' start blockSize
  rw [slice]
  rw [blocks_eq]
  generalize (start % blockSize + count + blockSize - 1) / blockSize * blockSize = total at hcover
  apply List.ext_getElem
  · simp only [List.length_take, List.length_drop, List.length_map, List.length_range]
    omega
  · intro i hi hi'
    simp only [List.getElem_take, List.getElem_drop, List.getElem_map, List.getElem_range]
    congr 1
    omega

end ChainScript.Stream
