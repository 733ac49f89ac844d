-- URL-safe base64 as Python writes and reads it: the reader passes over what is no letter of the
-- alphabet, and stops at the padding that closes a group. What is written is read back, and the
-- padding can be cut off and put back from the length of the rest.
import Mathlib.Data.List.DropRight
import Mathlib.Data.List.Infix

namespace base64

abbrev Bytes := List UInt8

/-! ## The letters -/

/-- The letter of six bits. -/
def letter (n : Nat) : Char :=
  if n < 26 then Char.ofNat (65 + n)
  else if n < 52 then Char.ofNat (71 + n)
  else if n < 62 then Char.ofNat (n - 4)
  else if n = 62 then '-'
  else '_'

/-- The six bits of a letter, in either of the two alphabets. -/
def sextet (c : Char) : Option Nat :=
  if 65 ≤ c.toNat ∧ c.toNat ≤ 90 then some (c.toNat - 65)
  else if 97 ≤ c.toNat ∧ c.toNat ≤ 122 then some (c.toNat - 71)
  else if 48 ≤ c.toNat ∧ c.toNat ≤ 57 then some (c.toNat + 4)
  else if c = '-' ∨ c = '+' then some 62
  else if c = '_' ∨ c = '/' then some 63
  else none

theorem sextet_letter {n : Nat} (h : n < 64) : sextet (letter n) = some n := by
  have hall : ∀ n < 64, sextet (letter n) = some n := by decide
  exact hall n h

/-- Beyond the alphabet the last letter stands for the number. -/
theorem exists_letter (n : Nat) : ∃ m < 64, letter n = letter m := by
  by_cases h : n < 64
  · exact ⟨n, h, rfl⟩
  · refine ⟨63, by decide, ?_⟩
    unfold letter
    rw [if_neg (by omega), if_neg (by omega), if_neg (by omega), if_neg (by omega)]
    rfl

/-- A letter is in ASCII, and it is no sign that closes a group or parts a text. -/
theorem letter_plain (n : Nat) : letter n ≠ '=' ∧ letter n ≠ '.' ∧ (letter n).toNat < 128 := by
  have hall : ∀ n < 64, letter n ≠ '=' ∧ letter n ≠ '.' ∧ (letter n).toNat < 128 := by decide
  obtain ⟨m, hm, heq⟩ := exists_letter n
  rw [heq]
  exact hall m hm

theorem letter_ne_comma (n : Nat) : letter n ≠ ',' := by
  have hall : ∀ n < 64, letter n ≠ ',' := by decide
  obtain ⟨m, hm, heq⟩ := exists_letter n
  rw [heq]
  exact hall m hm

/-! ## Writing -/

/-- `base64.urlsafe_b64encode` -/
def encode : Bytes → List Char
  | [] => []
  | [a] => [letter (a.toNat / 4), letter (a.toNat % 4 * 16), '=', '=']
  | [a, b] =>
    [letter (a.toNat / 4), letter (a.toNat % 4 * 16 + b.toNat / 16), letter (b.toNat % 16 * 4),
      '=']
  | a :: b :: c :: rest =>
    letter (a.toNat / 4) :: letter (a.toNat % 4 * 16 + b.toNat / 16) ::
      letter (b.toNat % 16 * 4 + c.toNat / 64) :: letter (c.toNat % 64) :: encode rest

/-! ## Reading -/

/-- What the reader holds: the letters of the group so far, the bits of the last one that are not
yet in a byte, the padding since, and the bytes. -/
structure Reader where
  quad : Nat
  left : Nat
  pads : Nat
  out : Bytes

/-- One letter of the alphabet. -/
def Reader.take (r : Reader) (n : Nat) : Reader :=
  match r.quad with
  | 0 => ⟨1, n, 0, r.out⟩
  | 1 => ⟨2, n % 16, 0, r.out ++ [UInt8.ofNat (r.left * 4 + n / 16)]⟩
  | 2 => ⟨3, n % 4, 0, r.out ++ [UInt8.ofNat (r.left * 16 + n / 4)]⟩
  | _ => ⟨0, 0, 0, r.out ++ [UInt8.ofNat (r.left * 64 + n)]⟩

/-- The end of the text. -/
def Reader.finish (r : Reader) : Except String Bytes :=
  if r.quad = 0 then .ok r.out
  else if r.quad = 1 then
    .error ("Invalid base64-encoded string: number of data characters (" ++
      toString (r.out.length / 3 * 4 + 1) ++ ") cannot be 1 more than a multiple of 4")
  else .error "Incorrect padding"

/-- `binascii.a2b_base64` -/
def read (r : Reader) : List Char → Except String Bytes
  | [] => r.finish
  | c :: rest =>
    if c = '=' then
      if 2 ≤ r.quad then
        if 4 ≤ r.quad + (r.pads + 1) then .ok r.out else read { r with pads := r.pads + 1 } rest
      else read r rest
    else
      match sextet c with
      | some n => read (r.take n) rest
      | none => read r rest

/-- `base64.urlsafe_b64decode` of an ASCII text. -/
def decode (text : List Char) : Except String Bytes := read ⟨0, 0, 0, []⟩ text

/-! ## What is written is read back -/

theorem read_letter {n : Nat} (h : n < 64) (r : Reader) (rest : List Char) :
    read r (letter n :: rest) = read (r.take n) rest := by
  rw [read, if_neg (letter_plain n).1, sextet_letter h]

theorem toNat_lt (a : UInt8) : a.toNat < 256 := a.toNat_lt

theorem ofNat_eq {a : UInt8} {n : Nat} (h : n = a.toNat) : UInt8.ofNat n = a := by
  rw [h, UInt8.ofNat_toNat]

/-- A group of the text adds its bytes. -/
theorem read_encode (b : Bytes) (out : Bytes) :
    read ⟨0, 0, 0, out⟩ (encode b) = .ok (out ++ b) := by
  fun_induction encode b generalizing out with
  | case1 => simp [read, Reader.finish]
  | case2 a =>
    have ha := toNat_lt a
    rw [read_letter (by omega), read_letter (by omega)]
    have hbyte : UInt8.ofNat (a.toNat / 4 * 4 + a.toNat % 4 * 16 / 16) = a := ofNat_eq (by omega)
    simp only [Reader.take, hbyte]
    simp [read]
  | case3 a b =>
    have ha := toNat_lt a
    have hb := toNat_lt b
    rw [read_letter (by omega), read_letter (by omega), read_letter (by omega)]
    have hfirst : UInt8.ofNat (a.toNat / 4 * 4 + (a.toNat % 4 * 16 + b.toNat / 16) / 16) = a :=
      ofNat_eq (by omega)
    have hsecond : UInt8.ofNat ((a.toNat % 4 * 16 + b.toNat / 16) % 16 * 16 +
        b.toNat % 16 * 4 / 4) = b := ofNat_eq (by omega)
    simp only [Reader.take, hfirst, hsecond]
    simp [read]
  | case4 a b c rest ih =>
    have ha := toNat_lt a
    have hb := toNat_lt b
    have hc := toNat_lt c
    rw [read_letter (by omega), read_letter (by omega), read_letter (by omega),
      read_letter (by omega)]
    have hfirst : UInt8.ofNat (a.toNat / 4 * 4 + (a.toNat % 4 * 16 + b.toNat / 16) / 16) = a :=
      ofNat_eq (by omega)
    have hsecond : UInt8.ofNat ((a.toNat % 4 * 16 + b.toNat / 16) % 16 * 16 +
        (b.toNat % 16 * 4 + c.toNat / 64) / 4) = b := ofNat_eq (by omega)
    have hthird : UInt8.ofNat ((b.toNat % 16 * 4 + c.toNat / 64) % 4 * 64 + c.toNat % 64) = c :=
      ofNat_eq (by omega)
    simp only [Reader.take, hfirst, hsecond, hthird]
    rw [ih]
    simp

theorem decode_encode (b : Bytes) : decode (encode b) = .ok b := read_encode b []

/-! ## The padding -/

/-- The text without the padding at its end. -/
def unpadded (text : List Char) : List Char := text.rdropWhile (· = '=')

/-- The padding that a text of this length lacks. -/
def padding (length : Nat) : List Char :=
  if 4 - length % 4 = 4 then [] else List.replicate (4 - length % 4) '='

/-- A written text is letters, and then the padding that they lack. -/
theorem exists_letters (b : Bytes) :
    ∃ digits : List Nat, encode b = digits.map letter ++ padding digits.length := by
  fun_induction encode b with
  | case1 => exact ⟨[], rfl⟩
  | case2 a => exact ⟨[a.toNat / 4, a.toNat % 4 * 16], rfl⟩
  | case3 a b =>
    exact ⟨[a.toNat / 4, a.toNat % 4 * 16 + b.toNat / 16, b.toNat % 16 * 4], rfl⟩
  | case4 a b c rest ih =>
    obtain ⟨digits, hrest⟩ := ih
    refine ⟨a.toNat / 4 :: (a.toNat % 4 * 16 + b.toNat / 16) ::
      (b.toNat % 16 * 4 + c.toNat / 64) :: (c.toNat % 64) :: digits, ?_⟩
    rw [hrest]
    simp only [padding, List.length_cons, List.map_cons, List.cons_append, Nat.add_assoc,
      Nat.reduceAdd, Nat.add_mod_right]

theorem unpadded_append_padding (digits : List Nat) (n : Nat) :
    unpadded (digits.map letter ++ padding n) = digits.map letter := by
  have hletters : (digits.map letter).rdropWhile (· = '=') = digits.map letter := by
    rw [List.rdropWhile_eq_self_iff]
    intro hne heq
    obtain ⟨d, -, hd⟩ := List.mem_map.mp (List.getLast_mem hne)
    exact (letter_plain d).1 (hd.trans (of_decide_eq_true heq))
  have hpads (k : Nat) :
      (digits.map letter ++ List.replicate k '=').rdropWhile (· = '=') = digits.map letter := by
    induction k with
    | zero => simpa using hletters
    | succ k ih =>
      rw [List.replicate_succ', ← List.append_assoc, List.rdropWhile_concat_pos _ _ _ (by simp),
        ih]
  unfold unpadded padding
  split
  · rw [List.append_nil]
    exact hletters
  · exact hpads _

/-- What is left is letters. -/
theorem unpadded_letters (b : Bytes) :
    ∃ digits : List Nat, unpadded (encode b) = digits.map letter := by
  obtain ⟨digits, hb⟩ := exists_letters b
  exact ⟨digits, by rw [hb, unpadded_append_padding]⟩

/-- The padding can be put back from the length of the rest. -/
theorem repadded (b : Bytes) :
    unpadded (encode b) ++ padding (unpadded (encode b)).length = encode b := by
  obtain ⟨digits, hb⟩ := exists_letters b
  have hcut : unpadded (encode b) = digits.map letter := by rw [hb, unpadded_append_padding]
  rw [hcut, List.length_map, hb]

end base64
