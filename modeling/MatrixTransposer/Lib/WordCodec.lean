import MatrixTransposer.Lib.Chunks
import Mathlib.Data.UInt

/-!
# Words as bytes

A natural number in a fixed number of bytes, the least significant first, and records of 32-bit
words without padding.
-/

namespace MatrixTransposer.Lib

def toBytes : Nat → Nat → List UInt8
  | 0, _ => []
  | width + 1, n => UInt8.ofNat n :: toBytes width (n / 256)

def ofBytes : List UInt8 → Nat
  | [] => 0
  | byte :: bytes => byte.toNat + 256 * ofBytes bytes

@[simp] theorem length_toBytes (width n : Nat) : (toBytes width n).length = width := by
  induction width generalizing n with
  | zero => rfl
  | succ width ih => rw [toBytes, List.length_cons, ih]

theorem ofBytes_lt (bytes : List UInt8) : ofBytes bytes < 256 ^ bytes.length := by
  induction bytes with
  | nil => simp [ofBytes]
  | cons byte bytes ih =>
      have hbyte := byte.toNat_lt
      rw [ofBytes, List.length_cons, Nat.pow_succ]
      omega

theorem ofBytes_toBytes {width n : Nat} (h : n < 256 ^ width) : ofBytes (toBytes width n) = n := by
  induction width generalizing n with
  | zero =>
      rw [Nat.pow_zero] at h
      rw [toBytes, ofBytes]
      omega
  | succ width ih =>
      rw [Nat.pow_succ] at h
      have hrest : n / 256 < 256 ^ width := by omega
      rw [toBytes, ofBytes, ih hrest, UInt8.toNat_ofNat']
      omega

theorem toBytes_ofBytes (bytes : List UInt8) : toBytes bytes.length (ofBytes bytes) = bytes := by
  induction bytes with
  | nil => rfl
  | cons byte bytes ih =>
      have hbyte := byte.toNat_lt
      have hfirst : UInt8.ofNat (ofBytes (byte :: bytes)) = byte := by
        apply UInt8.toNat_inj.mp
        rw [UInt8.toNat_ofNat', ofBytes]
        omega
      have hrest : ofBytes (byte :: bytes) / 256 = ofBytes bytes := by
        rw [ofBytes]
        omega
      rw [List.length_cons, toBytes, hfirst, hrest, ih]

/-! ## Records of words -/

def wordBytes (word : UInt32) : List UInt8 := toBytes 4 word.toNat

def wordOfBytes (bytes : List UInt8) : UInt32 := UInt32.ofNat (ofBytes bytes)

theorem length_wordBytes (word : UInt32) : (wordBytes word).length = 4 :=
  length_toBytes 4 _

theorem wordOfBytes_wordBytes (word : UInt32) : wordOfBytes (wordBytes word) = word := by
  have hlt : word.toNat < 256 ^ 4 := word.toNat_lt
  rw [wordOfBytes, wordBytes, ofBytes_toBytes hlt, UInt32.ofNat_toNat]

theorem wordBytes_wordOfBytes {bytes : List UInt8} (h : bytes.length = 4) :
    wordBytes (wordOfBytes bytes) = bytes := by
  have hlt := ofBytes_lt bytes
  rw [h] at hlt
  have hword : (wordOfBytes bytes).toNat = ofBytes bytes := by
    rw [wordOfBytes, UInt32.toNat_ofNat']
    exact Nat.mod_eq_of_lt hlt
  rw [wordBytes, hword, ← h, toBytes_ofBytes]

def recordBytes (words : List UInt32) : List UInt8 := words.flatMap wordBytes

def recordOfBytes (bytes : List UInt8) : List UInt32 := (chunks 4 bytes).map wordOfBytes

theorem length_recordBytes (words : List UInt32) :
    (recordBytes words).length = 4 * words.length := by
  induction words with
  | nil => rfl
  | cons word words ih =>
      rw [recordBytes, List.flatMap_cons, List.length_append, length_wordBytes, List.length_cons]
      rw [recordBytes] at ih
      omega

theorem recordOfBytes_recordBytes (words : List UInt32) :
    recordOfBytes (recordBytes words) = words := by
  have hsizes : ∀ m ∈ words.map wordBytes, m.length = 4 := by
    intro m hm
    obtain ⟨word, -, rfl⟩ := List.mem_map.mp hm
    exact length_wordBytes word
  have hchunks : chunks 4 (recordBytes words) = words.map wordBytes := by
    have hnil : chunks 4 ([] : List UInt8) = [] := rfl
    have happend : chunks 4 ((words.map wordBytes).flatten ++ []) = words.map wordBytes ++
        chunks 4 [] := chunks_flatten_append (by decide) hsizes
    rwa [List.append_nil, hnil, List.append_nil, ← List.flatMap_def] at happend
  rw [recordOfBytes, hchunks, List.map_map]
  apply List.map_id'' wordOfBytes_wordBytes

theorem recordBytes_recordOfBytes {bytes : List UInt8} (h : 4 ∣ bytes.length) :
    recordBytes (recordOfBytes bytes) = bytes := by
  have hwords : ∀ m ∈ chunks 4 bytes, (wordBytes ∘ wordOfBytes) m = id m := fun m hm =>
    wordBytes_wordOfBytes (length_of_mem_chunks hm)
  rw [recordBytes, recordOfBytes, List.flatMap_def, List.map_map, List.map_congr_left hwords,
    List.map_id, flatten_chunks h]

end MatrixTransposer.Lib
