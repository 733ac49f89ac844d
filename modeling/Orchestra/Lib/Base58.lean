-- Base58: a text of the digits of a number in the base 58, after a letter `1` for each zero byte
-- that stands first. What is written is read back.
import Mathlib.Data.List.GetD
import Mathlib.Data.List.TakeWhile
import Mathlib.Data.Nat.Digits.Defs
import Mathlib.Data.Nat.Digits.Lemmas

namespace base58

abbrev Bytes := List UInt8

/-! ## The letters -/

def alphabet : List Char :=
  ['1', '2', '3', '4', '5', '6', '7', '8', '9', 'A', 'B', 'C', 'D', 'E', 'F', 'G', 'H', 'J', 'K',
    'L', 'M', 'N', 'P', 'Q', 'R', 'S', 'T', 'U', 'V', 'W', 'X', 'Y', 'Z', 'a', 'b', 'c', 'd', 'e',
    'f', 'g', 'h', 'i', 'j', 'k', 'm', 'n', 'o', 'p', 'q', 'r', 's', 't', 'u', 'v', 'w', 'x', 'y',
    'z']

def letter (n : Nat) : Char := alphabet.getD n '1'

def value (c : Char) : Option Nat := alphabet.idxOf? c

theorem value_letter {n : Nat} (h : n < 58) : value (letter n) = some n := by
  have hall : ∀ n < 58, value (letter n) = some n := by decide
  exact hall n h

theorem letter_ne_one {n : Nat} (h : n < 58) (hpos : n ≠ 0) : letter n ≠ '1' := by
  have hall : ∀ n < 58, n ≠ 0 → letter n ≠ '1' := by decide
  exact hall n h hpos

theorem letter_mem (n : Nat) : letter n ∈ alphabet := by
  unfold letter
  rcases Nat.lt_or_ge n alphabet.length with h | h
  · rw [List.getD_eq_getElem _ _ h]
    exact List.getElem_mem h
  · rw [List.getD_eq_default _ _ h]
    decide

/-! ## Writing and reading -/

/-- The number whose bytes these are, the highest first. -/
def ofBytes (b : Bytes) : Nat := Nat.ofDigits 256 (b.reverse.map UInt8.toNat)

def toBytes (n : Nat) : Bytes := ((Nat.digits 256 n).map UInt8.ofNat).reverse

/-- `base58.b58encode` -/
def b58encode (b : Bytes) : List Char :=
  List.replicate (b.takeWhile (· = 0)).length '1' ++
    ((Nat.digits 58 (ofBytes (b.dropWhile (· = 0)))).map letter).reverse

/-- `base58.b58decode`, which is `none` where it fails. -/
def b58decode (text : List Char) : Option Bytes :=
  ((text.dropWhile (· = '1')).mapM value).map fun digits =>
    List.replicate (text.takeWhile (· = '1')).length 0 ++
      toBytes (Nat.ofDigits 58 digits.reverse)

/-! ## What is written is read back -/

theorem mapM_value {digits : List Nat} (h : ∀ n ∈ digits, n < 58) :
    (digits.map letter).mapM value = some digits := by
  induction digits with
  | nil => rfl
  | cons n rest ih =>
    rw [List.map_cons, List.mapM_cons, value_letter (h n List.mem_cons_self),
      ih fun m hm => h m (List.mem_cons_of_mem _ hm)]
    rfl

theorem head_dropWhile {α : Type} {p : α → Bool} {l : List α} {a : α} {rest : List α}
    (h : l.dropWhile p = a :: rest) : p a = false := by
  have hhead := List.head?_dropWhile_not p l
  rw [h] at hhead
  simpa using hhead

/-- The bytes of a number are those that it was made of, when the first is not zero. -/
theorem toBytes_ofBytes {b : Bytes} (h : b.head? ≠ some 0) : toBytes (ofBytes b) = b := by
  have hdigits : Nat.digits 256 (ofBytes b) = b.reverse.map UInt8.toNat := by
    refine Nat.digits_ofDigits 256 (by decide) _ ?_ ?_
    · intro n hn
      obtain ⟨a, -, rfl⟩ := List.mem_map.mp hn
      exact a.toNat_lt
    · intro hne hlast
      rw [List.getLast_map, List.getLast_reverse] at hlast
      refine h ?_
      have hb : b ≠ [] := by simpa using hne
      rw [List.head?_eq_some_head hb, UInt8.toNat_inj.mp (hlast.trans UInt8.toNat_zero.symm)]
  unfold toBytes
  rw [hdigits, List.map_map]
  have hsame : UInt8.ofNat ∘ UInt8.toNat = id := by
    funext a
    exact UInt8.ofNat_toNat
  rw [hsame, List.map_id, List.reverse_reverse]

theorem b58decode_b58encode (b : Bytes) : b58decode (b58encode b) = some b := by
  have hlt : ∀ n ∈ Nat.digits 58 (ofBytes (b.dropWhile (· = 0))), n < 58 := fun n hn =>
    Nat.digits_lt_base (by decide) hn
  have hfirst : ∀ c ∈ ((Nat.digits 58 (ofBytes (b.dropWhile (· = 0)))).map letter).reverse.head?,
      c ≠ '1' := by
    intro c hc
    rw [List.head?_reverse, List.getLast?_map] at hc
    obtain ⟨n, hn, rfl⟩ := Option.mem_map.mp hc
    obtain ⟨hne, rfl⟩ := List.mem_getLast?_eq_getLast hn
    have hpos : ofBytes (b.dropWhile (· = 0)) ≠ 0 := fun hzero => hne (by rw [hzero]; rfl)
    exact letter_ne_one (hlt _ (List.getLast_mem hne)) (Nat.getLast_digit_ne_zero 58 hpos)
  generalize hdigits : Nat.digits 58 (ofBytes (b.dropWhile (· = 0))) = digits at hlt hfirst
  have hones : ∀ c ∈ List.replicate (b.takeWhile (· = 0)).length '1', decide (c = '1') = true :=
    fun c hc => decide_eq_true (List.eq_of_mem_replicate hc)
  have hstop : (digits.map letter).reverse.dropWhile (· = '1') = (digits.map letter).reverse ∧
      (digits.map letter).reverse.takeWhile (· = '1') = [] := by
    cases hl : (digits.map letter).reverse with
    | nil => exact ⟨rfl, rfl⟩
    | cons c rest =>
      have hc : c ≠ '1' := hfirst c (by rw [hl]; rfl)
      simp [hc]
  have hzeros : List.replicate (b.takeWhile (· = 0)).length 0 = b.takeWhile (· = 0) :=
    (List.eq_replicate_iff.mpr
      ⟨rfl, fun a ha => by simpa using List.mem_takeWhile_imp ha⟩).symm
  have hhead : (b.dropWhile (· = 0)).head? ≠ some 0 := by
    intro hzero
    obtain ⟨rest, hrest⟩ := List.head?_eq_some_iff.mp hzero
    have hnot := head_dropWhile hrest
    simp at hnot
  unfold b58decode b58encode
  rw [hdigits, List.dropWhile_append_of_pos hones, List.takeWhile_append_of_pos hones, hstop.1,
    hstop.2, ← List.map_reverse, mapM_value fun n hn => hlt n (List.mem_reverse.mp hn),
    Option.map_some, List.reverse_reverse, ← hdigits, Nat.ofDigits_digits, toBytes_ofBytes hhead,
    List.append_nil, List.length_replicate, hzeros, List.takeWhile_append_dropWhile]

theorem b58encode_mem (b : Bytes) : ∀ c ∈ b58encode b, c ∈ alphabet := by
  intro c hc
  rcases List.mem_append.mp hc with hc | hc
  · rw [List.eq_of_mem_replicate hc]
    decide
  · obtain ⟨n, -, rfl⟩ := List.mem_map.mp (List.mem_reverse.mp hc)
    exact letter_mem n

end base58
