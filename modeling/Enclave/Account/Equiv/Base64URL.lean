import Enclave.Account.Base64URL
import Enclave.Codec.Sextets
import Mathlib.Algebra.Order.Floor.Div
import Mathlib.GroupTheory.GroupAction.Ring
import Mathlib.Tactic.IntervalCases

/-!
# `Base64URL.encode` is base64url without padding

`encode_eq_map`: the text is the sequence of six-bit digits of the input, each written in the URL
alphabet.  Its length is `⌈4 n / 3⌉` (`length_encode`), and decoding it by the alphabet gives the
input back (`decode_encode`), so that it is one to one (`encode_injective`).
-/

namespace Enclave.Base64

open Codec

/-- A digit in the alphabet of the table. -/
def digit (i : Fin 64) : UInt8 := table.getD i.val 0

theorem character_eq_digit (input shift : ℕ) :
    character input shift = digit (sextetAt input shift) := by
  have hindex : input >>> shift &&& 0x3F = input / 2 ^ shift % 64 := by
    rw [Nat.shiftRight_eq_div_pow]
    exact Nat.and_two_pow_sub_one_eq_mod _ 6
  rw [character, hindex]
  rfl

theorem chunk_eq (x y z : UInt8) :
    chunk x y z = [digit (sextetAt (triple x y z) 18), digit (sextetAt (triple x y z) 12),
      digit (sextetAt (triple x y z) 6), digit (sextetAt (triple x y z) 0)] := by
  simp only [chunk, character_eq_digit]
  rfl

/-- How many characters of padding follow the digits of `k` bytes. -/
def padding (k : ℕ) : ℕ := 2 * k % 3

theorem padding_add_three (k : ℕ) : padding (k + 3) = padding k := by
  unfold padding
  omega

/-- The loop writes the digits, and zero digits to the end of the last group. -/
theorem encodeLoop_eq (data : Bytes) :
    encodeLoop data
      = (sextets data).map digit ++ List.replicate (padding data.length) (digit 0) := by
  induction data using sextets.induct with
  | case1 => rfl
  | case2 x =>
    rw [encodeLoop, chunk_eq, (sextetAt_triple_zero x 0).1, (sextetAt_triple_zero x 0).2, sextets]
    rfl
  | case3 x y =>
    have hpad : padding [x, y].length = 1 := show 2 * 2 % 3 = 1 from rfl
    rw [encodeLoop, chunk_eq, (sextetAt_triple_zero x y).1, sextets, hpad]
    rfl
  | case4 x y z rest ih =>
    have hlen : (x :: y :: z :: rest).length = rest.length + 3 := rfl
    rw [encodeLoop, ih, hlen, padding_add_three, chunk_eq]
    rfl

/-- `Base64.encode` writes the digits and pads with `=`. -/
theorem encode_eq (data : Bytes) :
    encode data = (sextets data).map digit ++ List.replicate (padding data.length) 0x3d := by
  unfold encode
  by_cases hnil : data.length = 0
  · rw [if_pos hnil, List.length_eq_zero_iff.mp hnil]
    rfl
  · rw [if_neg hnil, encodeLoop_eq]
    have hmod : data.length % 3 < 3 := Nat.mod_lt _ (by decide)
    generalize (sextets data).map digit = digits
    -- the padding overwrites exactly the zero digits
    interval_cases h : data.length % 3
    · have hpad : padding data.length = 0 := by unfold padding; omega
      rw [hpad]
      rfl
    · have hpad : padding data.length = 2 := by unfold padding; omega
      rw [hpad]
      simp
    · have hpad : padding data.length = 1 := by unfold padding; omega
      rw [hpad]
      simp

set_option maxRecDepth 10000 in
theorem digit_ne_equals (i : Fin 64) : digit i ≠ 0x3d := by
  revert i
  decide

end Enclave.Base64

namespace Enclave.Base64URL

open Codec

/-- A digit in the alphabet of base64url. -/
def digit (i : Fin 64) : UInt8 :=
  (ascii "ABCDEFGHIJKLMNOPQRSTUVWXYZabcdefghijklmnopqrstuvwxyz0123456789-_").getD i.val 0

set_option maxRecDepth 10000 in
theorem replace_digit (i : Fin 64) : replace (Base64.digit i) = digit i := by
  revert i
  decide

/-- The digit that a character of the alphabet stands for. -/
def value (c : UInt8) : Option (Fin 64) :=
  if 0x41 ≤ c ∧ c ≤ 0x5a then some (Fin.ofNat 64 (c.toNat - 0x41))
  else if 0x61 ≤ c ∧ c ≤ 0x7a then some (Fin.ofNat 64 (c.toNat - 0x61 + 26))
  else if 0x30 ≤ c ∧ c ≤ 0x39 then some (Fin.ofNat 64 (c.toNat - 0x30 + 52))
  else if c = 0x2d then some 62
  else if c = 0x5f then some 63
  else none

set_option maxRecDepth 10000 in
theorem value_digit (i : Fin 64) : value (digit i) = some i := by
  revert i
  decide

/-- The characters `A` to `Z`, `a` to `z`, `0` to `9`, `-` and `_`. -/
def UrlCharacter (c : UInt8) : Prop :=
  (0x41 ≤ c ∧ c ≤ 0x5a) ∨ (0x61 ≤ c ∧ c ≤ 0x7a) ∨ (0x30 ≤ c ∧ c ≤ 0x39) ∨ c = 0x2d ∨ c = 0x5f

/-- Only these stand for digits. -/
theorem urlCharacter_of_value {c : UInt8} {i : Fin 64} (h : value c = some i) : UrlCharacter c := by
  unfold value at h
  split_ifs at h with hupper hlower hnumeral hdash hline
  · exact Or.inl hupper
  · exact Or.inr (Or.inl hlower)
  · exact Or.inr (Or.inr (Or.inl hnumeral))
  · exact Or.inr (Or.inr (Or.inr (Or.inl hdash)))
  · exact Or.inr (Or.inr (Or.inr (Or.inr hline)))

/-- Decoding by the alphabet: the digits of the characters, and the bytes of the digits. -/
def decode (text : Bytes) : Option Bytes := text.mapM value >>= octets

theorem mapM_value_map_digit (digits : List (Fin 64)) :
    (digits.map digit).mapM value = some digits := by
  induction digits with
  | nil => rfl
  | cons i digits ih => rw [List.map_cons, List.mapM_cons, value_digit, ih]; rfl

/-- The count of trailing `=` that `encode` makes is the length of the padding. -/
theorem equalsCount_eq (digits : Bytes) (k : ℕ) (hk : k ≤ 2) (hdigits : ∀ c ∈ digits, c ≠ 0x3d)
    (hlen : k ≠ 0 → 2 ≤ digits.length) :
    (if (digits ++ List.replicate k 0x3d).length > 2 ∧
        (digits ++ List.replicate k 0x3d).getD ((digits ++ List.replicate k 0x3d).length - 2) 0
          = 0x3d then 2
      else if (digits ++ List.replicate k 0x3d).length > 1 ∧
        (digits ++ List.replicate k 0x3d).getD ((digits ++ List.replicate k 0x3d).length - 1) 0
          = 0x3d then 1
      else 0) = k := by
  -- a character of the digits part is not `=`
  have hgetD : ∀ i, i < digits.length →
      (digits ++ List.replicate k 0x3d).getD i 0 ≠ 0x3d := by
    intro i hi
    rw [List.getD_append _ _ _ _ hi, List.getD_eq_getElem _ _ hi]
    exact hdigits _ (List.getElem_mem hi)
  rw [List.length_append, List.length_replicate]
  interval_cases k
  · -- both tests read a digit
    rw [if_neg, if_neg]
    · rintro ⟨hgt, heq⟩
      exact hgetD _ (by omega) heq
    · rintro ⟨hgt, heq⟩
      exact hgetD _ (by omega) heq
  · -- the first test reads the last digit, the second one the `=`
    have h2 : 2 ≤ digits.length := hlen (by decide)
    rw [if_neg, if_pos]
    · refine ⟨by omega, ?_⟩
      rw [List.getD_append_right _ _ _ _ (by omega), Nat.add_sub_cancel, Nat.sub_self]
      rfl
    · rintro ⟨-, heq⟩
      exact hgetD _ (by omega) heq
  · -- the first test reads the first `=`
    have h2 : 2 ≤ digits.length := hlen (by decide)
    rw [if_pos]
    refine ⟨by omega, ?_⟩
    rw [List.getD_append_right _ _ _ _ (by omega), Nat.add_sub_cancel, Nat.sub_self]
    rfl

/-- **`Base64URL.encode` writes the six-bit digits of its input in the URL alphabet.** -/
theorem encode_eq_map (data : Bytes) : encode data = (sextets data).map digit := by
  have hdigits : ∀ c ∈ (sextets data).map Base64.digit, c ≠ 0x3d := by
    intro c hc
    obtain ⟨i, -, rfl⟩ := List.mem_map.mp hc
    exact Base64.digit_ne_equals i
  have hlen : Base64.padding data.length ≠ 0 → 2 ≤ ((sextets data).map Base64.digit).length := by
    intro hpad
    have hpos : data.length ≠ 0 := fun h0 => hpad (by rw [h0]; rfl)
    rw [List.length_map, length_sextets]
    omega
  have hcount := equalsCount_eq ((sextets data).map Base64.digit) (Base64.padding data.length)
    (by unfold Base64.padding; omega) hdigits hlen
  simp only [encode, Base64.encode_eq, hcount]
  rw [List.length_append, List.length_replicate, Nat.add_sub_cancel, List.take_left, List.map_map]
  exact List.map_congr_left fun i _ => replace_digit i

theorem decode_encode (data : Bytes) : decode (encode data) = some data := by
  rw [decode, encode_eq_map, mapM_value_map_digit]
  exact octets_sextets data

theorem encode_injective : Function.Injective encode := by
  intro data data' h
  have hsome : some data = some data' := by
    rw [← decode_encode data, h, decode_encode]
  exact Option.some.inj hsome

theorem length_encode (data : Bytes) : (encode data).length = (4 * data.length + 2) / 3 := by
  rw [encode_eq_map, List.length_map, length_sextets]

/-- A hash gives a challenge of 43 characters. -/
theorem length_encode_hash (hash : Word) : (encode hash.toBytes).length = 43 := by
  rw [length_encode, Word.length_toBytes]

theorem urlCharacter_of_mem_encode {data : Bytes} {c : UInt8} (hc : c ∈ encode data) :
    UrlCharacter c := by
  rw [encode_eq_map] at hc
  obtain ⟨i, -, rfl⟩ := List.mem_map.mp hc
  exact urlCharacter_of_value (value_digit i)

/-- **`Base64URL.encode` is base64url without padding**: the length of the text, its characters, and
what it decodes to. -/
theorem encode_base64url :
    (∀ data : Bytes, (encode data).length = 4 * data.length ⌈/⌉ 3 ∧
      (∀ c ∈ encode data, UrlCharacter c) ∧ decode (encode data) = some data) ∧
    Function.Injective encode ∧
    ∀ hash : Word, (encode hash.toBytes).length = 43 := by
  refine ⟨fun data => ⟨?_, fun c hc => urlCharacter_of_mem_encode hc, decode_encode data⟩,
    encode_injective, length_encode_hash⟩
  rw [length_encode, Nat.ceilDiv_eq_add_pred_div]
  rfl

example : encode (ascii "hi?>") = ascii "aGk_Pg" := by decide

example : decode (ascii "aGk_Pg") = some (ascii "hi?>") := by decide

end Enclave.Base64URL
