import Mathlib.Data.List.Induction
import Mathlib.Data.Nat.Digits.Defs
import MemberPath.WordHash

/-!
# The lanes of the folding hash

A word has eight lanes of one byte. A byte that is folded in moves up by a lane with every byte
behind it and comes round again after eight, so the bytes end up in the lanes of their distances
from the end, whatever the state was before (`writeBytes_eq`). Hence a list of bytes leaves from the
start what each lane has of it, and two lists leave the same word iff they agree lane by lane
(`folds_in_lanes`).
-/

namespace MemberPath.WordHash

/-- The bytes, each with its distance from the last one. -/
def fromEnd (bytes : List (BitVec 8)) : List (BitVec 8 × Nat) :=
  bytes.zipIdx.map fun (b, i) => (b, bytes.length - 1 - i)

def xorAll {w : Nat} (xs : List (BitVec w)) : BitVec w :=
  xs.foldr (· ^^^ ·) 0#w

/-- The bytes in one word, each rotated by its distance from the end. -/
def spread (bytes : List (BitVec 8)) : WordHash :=
  xorAll ((fromEnd bytes).map fun (b, d) => (b.setWidth 64).rotateLeft (8 * d % 64))

/-- What the bytes leave in lane `l`. -/
def lane (l : Nat) (bytes : List (BitVec 8)) : BitVec 8 :=
  xorAll (((fromEnd bytes).filter (·.2 % 8 = l)).map (·.1))

/-- The number that the bytes spell, the first of them the most significant. -/
def bigEndian (bytes : List (BitVec 8)) : Nat :=
  Nat.ofDigits 256 (bytes.map BitVec.toNat).reverse

/-- Behind the last word that they write, or from the start on if they write none, the writes `ws`
write `bytes`. -/
def EndsWith (ws : List Write) (word : WordHash) (bytes : List (BitVec 8)) : Prop :=
  ∃ chunks : List (List (BitVec 8)), chunks.flatten = bytes ∧
    (ws = chunks.map .bytes ∧ word = start ∨
      ∃ before, ws = before ++ .word word :: chunks.map .bytes)

/-- What it comes to that `bytes` are written to `state`. -/
structure FoldsInLanes (state : WordHash) (bytes : List (BitVec 8)) : Prop where
  closed : state.writeBytes bytes = state.rotateLeft (8 * bytes.length % 64) ^^^ spread bytes
  chunked : ∀ chunks : List (List (BitVec 8)), chunks.flatten = bytes →
    chunks.foldl writeBytes state = state.writeBytes bytes
  /-- Eight bytes are a word. -/
  eight : bytes.length = 8 → state.writeBytes bytes = state ^^^ BitVec.ofNat 64 (bigEndian bytes)
  collides_iff : ∀ other, start.writeBytes bytes = start.writeBytes other ↔
    ∀ l < 8, lane l bytes = lane l other
  short : ∀ other, other.length = bytes.length → bytes.length ≤ 8 →
    start.writeBytes bytes = start.writeBytes other → bytes = other
  /-- The state behind some writes depends on how they end, and on nothing else. -/
  written : ∀ ws, EndsWith ws state bytes → (states ws).getLast? = some (state.writeBytes bytes)
  ends : ∀ ws, ∃ word rest, EndsWith ws word rest

variable {bytes other : List (BitVec 8)} {state x y : WordHash} {ws : List Write}

/-! ### Rotations of a word -/

theorem getElem_rotateLeft_eq (x : BitVec 64) (n : Nat) {i : Nat} (hi : i < 64) :
    (x.rotateLeft n)[i] = x.getLsbD ((i + 64 - n % 64) % 64) := by
  rw [BitVec.getElem_rotateLeft hi]
  split
  · rw [← BitVec.getLsbD_eq_getElem]
    congr 1
    omega
  · rw [← BitVec.getLsbD_eq_getElem]
    congr 1
    omega

theorem rotateLeft_rotateLeft (x : BitVec 64) (m n : Nat) :
    (x.rotateLeft m).rotateLeft n = x.rotateLeft (m + n) := by
  ext i hi
  have hj : (i + 64 - n % 64) % 64 < 64 := Nat.mod_lt _ (by decide)
  rw [getElem_rotateLeft_eq, getElem_rotateLeft_eq, BitVec.getLsbD_eq_getElem hj,
    getElem_rotateLeft_eq]
  congr 1
  omega

theorem rotateLeft_xor (x y : BitVec 64) (n : Nat) :
    (x ^^^ y).rotateLeft n = x.rotateLeft n ^^^ y.rotateLeft n := by
  ext i hi
  rw [BitVec.getElem_xor]
  simp only [getElem_rotateLeft_eq, BitVec.getLsbD_xor]

theorem rotateLeft_zero (x : BitVec 64) : x.rotateLeft 0 = x := by
  ext i hi
  rw [getElem_rotateLeft_eq, ← BitVec.getLsbD_eq_getElem]
  congr 1
  omega

/-! ### The closed form -/

theorem fromEnd_cons (b : BitVec 8) (bytes : List (BitVec 8)) :
    fromEnd (b :: bytes) = (b, bytes.length) :: fromEnd bytes := by
  simp only [fromEnd, List.zipIdx_cons', List.map_cons, List.map_map, List.length_cons]
  congr 1
  apply List.map_congr_left
  rintro ⟨x, i⟩ -
  simp only [Function.comp_apply, Prod.map_apply, id_eq, Prod.mk.injEq, true_and]
  omega

theorem spread_cons (b : BitVec 8) (bytes : List (BitVec 8)) :
    spread (b :: bytes) =
      (b.setWidth 64).rotateLeft (8 * bytes.length % 64) ^^^ spread bytes := by
  rw [spread, fromEnd_cons]
  rfl

theorem writeBytes_eq (state : WordHash) (bytes : List (BitVec 8)) :
    state.writeBytes bytes = state.rotateLeft (8 * bytes.length % 64) ^^^ spread bytes := by
  induction bytes generalizing state with
  | nil =>
    show state = state.rotateLeft 0 ^^^ 0#64
    rw [rotateLeft_zero, BitVec.xor_zero]
  | cons b bytes ih =>
    have hlen : 8 + 8 * bytes.length = 8 * (b :: bytes).length := by
      rw [List.length_cons]
      omega
    show (state.writeByte b).writeBytes bytes = _
    rw [ih, writeByte, rotateLeft_xor, spread_cons]
    simp only [BitVec.rotateLeft_mod_eq_rotateLeft]
    rw [rotateLeft_rotateLeft, hlen, BitVec.xor_assoc]

theorem writeBytes_append (state : WordHash) (front back : List (BitVec 8)) :
    state.writeBytes (front ++ back) = (state.writeBytes front).writeBytes back :=
  List.foldl_append

theorem foldl_writeBytes (state : WordHash) (chunks : List (List (BitVec 8))) :
    chunks.foldl writeBytes state = state.writeBytes chunks.flatten := by
  induction chunks generalizing state with
  | nil => rfl
  | cons chunk chunks ih => rw [List.foldl_cons, ih, List.flatten_cons, writeBytes_append]

theorem start_writeBytes (bytes : List (BitVec 8)) : start.writeBytes bytes = spread bytes := by
  have hz : start.rotateLeft (8 * bytes.length % 64) = 0#64 := by
    ext i hi
    rw [getElem_rotateLeft_eq, BitVec.getElem_zero]
    exact BitVec.getLsbD_zero
  rw [writeBytes_eq, hz, BitVec.zero_xor]

/-! ### Lanes -/

/-- The byte in lane `l` of a word. -/
def laneOf (x : WordHash) (l : Nat) : BitVec 8 :=
  x.extractLsb' (8 * l) 8

theorem eq_of_laneOf {x y : WordHash} (h : ∀ l < 8, laneOf x l = laneOf y l) : x = y := by
  apply BitVec.eq_of_getLsbD_eq
  intro i hi
  have hl := congrArg (·.getLsbD (i % 8)) (h (i / 8) (by omega))
  have hm : i % 8 < 8 := Nat.mod_lt _ (by decide)
  simpa [laneOf, hm, Nat.div_add_mod] using hl

theorem laneOf_rotated {l : Nat} (hl : l < 8) (b : BitVec 8) (d : Nat) :
    laneOf ((b.setWidth 64).rotateLeft (8 * d % 64)) l = if d % 8 = l then b else 0#8 := by
  ext j hj
  rw [laneOf, BitVec.getElem_extractLsb', BitVec.getLsbD_eq_getElem (by omega),
    getElem_rotateLeft_eq, BitVec.getLsbD_setWidth]
  split
  · have hi : (8 * l + j + 64 - 8 * d % 64 % 64) % 64 = j := by omega
    have hj64 : j < 64 := by omega
    rw [hi, decide_eq_true hj64, Bool.true_and, BitVec.getLsbD_eq_getElem hj]
  · have hi : 8 ≤ (8 * l + j + 64 - 8 * d % 64 % 64) % 64 := by omega
    rw [BitVec.getLsbD_of_ge _ _ hi, Bool.and_false]
    exact (BitVec.getElem_zero hj).symm

theorem lane_cons (l : Nat) (b : BitVec 8) (bytes : List (BitVec 8)) :
    lane l (b :: bytes) = (if bytes.length % 8 = l then b else 0#8) ^^^ lane l bytes := by
  rw [lane, fromEnd_cons]
  by_cases h : bytes.length % 8 = l
  · rw [if_pos h, List.filter_cons_of_pos (by simpa using h)]
    rfl
  · rw [if_neg h, List.filter_cons_of_neg (by simpa using h), BitVec.zero_xor]
    rfl

theorem laneOf_spread {l : Nat} (hl : l < 8) (bytes : List (BitVec 8)) :
    laneOf (spread bytes) l = lane l bytes := by
  induction bytes with
  | nil =>
    show (0 : BitVec 64).extractLsb' (8 * l) 8 = 0
    simp
  | cons b bytes ih =>
    rw [spread_cons, laneOf, BitVec.extractLsb'_xor, lane_cons, ← ih, ← laneOf_rotated hl]
    rfl

theorem start_writeBytes_eq_iff :
    start.writeBytes bytes = start.writeBytes other ↔ ∀ l < 8, lane l bytes = lane l other := by
  rw [start_writeBytes, start_writeBytes]
  constructor
  · intro h l hl
    rw [← laneOf_spread hl, h, laneOf_spread hl]
  · intro h
    apply eq_of_laneOf
    intro l hl
    rw [laneOf_spread hl, h l hl, laneOf_spread hl]

/-! ### Eight bytes and fewer -/

theorem bigEndian_cons (b : BitVec 8) (bytes : List (BitVec 8)) :
    bigEndian (b :: bytes) = 256 ^ bytes.length * b.toNat + bigEndian bytes := by
  rw [bigEndian, List.map_cons, List.reverse_cons, Nat.ofDigits_append, Nat.ofDigits_singleton,
    List.length_reverse, List.length_map, Nat.add_comm]
  rfl

theorem lt_of_mem_digits {x : Nat} (h : x ∈ (bytes.map BitVec.toNat).reverse) : x < 256 := by
  obtain ⟨b, -, rfl⟩ := List.mem_map.1 (List.mem_reverse.1 h)
  exact b.isLt

theorem bigEndian_lt (bytes : List (BitVec 8)) : bigEndian bytes < 256 ^ bytes.length := by
  have h := Nat.ofDigits_lt_base_pow_length (by decide) fun _ => @lt_of_mem_digits bytes _
  rwa [List.length_reverse, List.length_map] at h

theorem bigEndian_inj (hlen : bytes.length = other.length)
    (h : bigEndian bytes = bigEndian other) : bytes = other := by
  have hd := Nat.ofDigits_inj_of_len_eq (by decide) (by simpa using hlen)
    (fun _ => lt_of_mem_digits) (fun _ => lt_of_mem_digits) h
  exact (List.map_inj_right fun _ _ => BitVec.eq_of_toNat_eq).1 (List.reverse_inj.1 hd)

theorem toNat_rotateLeft_byte (b : BitVec 8) {k : Nat} (hk : k < 8) :
    ((b.setWidth 64).rotateLeft (8 * k % 64)).toNat = 2 ^ (8 * k) * b.toNat := by
  apply Nat.eq_of_testBit_eq
  intro i
  rw [Nat.testBit_two_pow_mul, BitVec.testBit_toNat, BitVec.testBit_toNat]
  by_cases hi : i < 64
  · rw [BitVec.getLsbD_eq_getElem hi, getElem_rotateLeft_eq, BitVec.getLsbD_setWidth]
    by_cases hki : 8 * k ≤ i
    · have hj : (i + 64 - 8 * k % 64 % 64) % 64 = i - 8 * k := by omega
      have hj64 : i - 8 * k < 64 := by omega
      rw [hj, decide_eq_true hj64, decide_eq_true hki]
    · have hj : 8 ≤ (i + 64 - 8 * k % 64 % 64) % 64 := by omega
      rw [BitVec.getLsbD_of_ge b _ hj]
      simp [hki]
  · rw [BitVec.getLsbD_of_ge _ _ (by omega), BitVec.getLsbD_of_ge b _ (by omega), Bool.and_false]

theorem toNat_spread (h : bytes.length ≤ 8) : (spread bytes).toNat = bigEndian bytes := by
  induction bytes with
  | nil => rfl
  | cons b bytes ih =>
    rw [List.length_cons] at h
    have hpow : 256 ^ bytes.length = 2 ^ (8 * bytes.length) := Nat.pow_mul 2 8 bytes.length |>.symm
    have hlt := bigEndian_lt bytes
    rw [hpow] at hlt
    rw [spread_cons, BitVec.toNat_xor, ih (by omega), toNat_rotateLeft_byte b (by omega),
      bigEndian_cons, hpow]
    -- the byte stands above all bits of the bytes behind it
    apply Nat.eq_of_testBit_eq
    intro i
    rw [Nat.testBit_xor, Nat.testBit_two_pow_mul_add _ hlt, Nat.testBit_two_pow_mul]
    split
    · simp [show ¬ 8 * bytes.length ≤ i by omega]
    · have hle : 8 * bytes.length ≤ i := by omega
      have hi : bigEndian bytes < 2 ^ i := hlt.trans_le (Nat.pow_le_pow_right (by decide) hle)
      simp [hle, Nat.testBit_lt_two_pow hi]

/-! ### Runs of writes -/

theorem states_concat (ws : List Write) (w : Write) :
    states (ws ++ [w]) = states ws ++ [Write.apply ((states ws).getLastD start) w] := by
  rw [states, List.foldl_append]
  rfl

theorem getLast?_states (ws : List Write) :
    (states ws).getLast? = some (ws.foldl Write.apply start) := by
  induction ws using List.reverseRecOn with
  | nil => rfl
  | append_singleton ws w ih =>
    rw [states_concat, List.getLast?_concat, List.foldl_append, List.getLastD_eq_getLast?, ih]
    rfl

theorem foldl_bytes (state : WordHash) (chunks : List (List (BitVec 8))) :
    (chunks.map Write.bytes).foldl Write.apply state = state.writeBytes chunks.flatten := by
  rw [List.foldl_map, ← foldl_writeBytes]
  rfl

theorem getLast?_states_of_endsWith (h : EndsWith ws state bytes) :
    (states ws).getLast? = some (state.writeBytes bytes) := by
  obtain ⟨chunks, rfl, ⟨rfl, rfl⟩ | ⟨before, rfl⟩⟩ := h
  · rw [getLast?_states, foldl_bytes]
  · rw [getLast?_states, List.foldl_append, List.foldl_cons, foldl_bytes]
    rfl

theorem exists_endsWith (ws : List Write) : ∃ word bytes, EndsWith ws word bytes := by
  induction ws using List.reverseRecOn with
  | nil => exact ⟨start, [], [], rfl, .inl ⟨rfl, rfl⟩⟩
  | append_singleton ws w ih =>
    cases w with
    | word word => exact ⟨word, [], [], rfl, .inr ⟨ws, rfl⟩⟩
    | bytes chunk =>
      obtain ⟨word, _, chunks, rfl, ⟨rfl, rfl⟩ | ⟨before, rfl⟩⟩ := ih
      · exact ⟨start, _, chunks ++ [chunk], rfl, .inl ⟨by simp, rfl⟩⟩
      · exact ⟨word, _, chunks ++ [chunk], rfl, .inr ⟨before, by simp⟩⟩

theorem folds_in_lanes (state : WordHash) (bytes : List (BitVec 8)) :
    FoldsInLanes state bytes where
  closed := writeBytes_eq state bytes
  chunked chunks h := by rw [foldl_writeBytes, h]
  eight h := by
    have hz : state.rotateLeft (8 * bytes.length % 64) = state := by
      rw [h]
      exact rotateLeft_zero state
    rw [writeBytes_eq, hz, ← toNat_spread h.le, BitVec.ofNat_toNat, BitVec.setWidth_eq]
  collides_iff _ := start_writeBytes_eq_iff
  short other hlen h8 h := by
    have hnat := congrArg BitVec.toNat h
    rw [start_writeBytes, start_writeBytes, toNat_spread h8,
      toNat_spread (hlen.trans_le h8)] at hnat
    exact bigEndian_inj hlen.symm hnat
  written _ := getLast?_states_of_endsWith
  ends := exists_endsWith

/-- A byte that has gone round once stands where it would stand alone, and what is written in front
of a word does not matter. -/
theorem folds_in_lanes_round :
    start.writeBytes (1 :: List.replicate 8 0) = start.writeBytes [1] ∧
      writeBytes 5 [1, 2, 3, 4, 5, 6, 7, 8] = 5 ^^^ 0x0102030405060708#64 ∧
      start.writeBytes [1, 2] ≠ start.writeBytes [2, 1] ∧
      (states [.bytes [9], .word 5, .bytes [1, 2], .bytes [], .bytes [3]]).getLast? =
        some (writeBytes 5 [1, 2, 3]) := by
  have hround := ((folds_in_lanes start (1 :: List.replicate 8 0)).collides_iff [1]).2 (by decide)
  have hword := (folds_in_lanes 5 [1, 2, 3, 4, 5, 6, 7, 8]).eight rfl
  have hshort := (folds_in_lanes start [1, 2]).short [2, 1] rfl (by decide)
  have hends : EndsWith [.bytes [9], .word 5, .bytes [1, 2], .bytes [], .bytes [3]] 5 [1, 2, 3] :=
    ⟨[[1, 2], [], [3]], rfl, .inr ⟨[.bytes [9]], rfl⟩⟩
  exact ⟨hround, hword, fun h => by simpa using hshort h,
    (folds_in_lanes 5 [1, 2, 3]).written _ hends⟩

end MemberPath.WordHash
