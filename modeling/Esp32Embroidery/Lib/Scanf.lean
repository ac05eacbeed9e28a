import Mathlib.Data.Bool.Basic
import Mathlib.Data.List.Basic
import Mathlib.Data.List.TakeWhile
import Mathlib.Tactic.Common

/-!
# Hexadecimal conversions of `sscanf` and `printf`

`%2X` of `sscanf` skips blanks and takes at most two characters: two digits, one digit, or a
sign and a digit. `0x` begins a number and is none, so the conversion fails there.

* `scanHex2`: the conversion, with the rest of the input.
* `scanList`: conversions with a character of the format between them.
* `Loose`: the inputs on which all of them succeed, as a grammar; `scanList_isSome_iff`.
* `Denotes`: the inputs of two digits each; `scanList_of_denotes`, `denotes_printList`.
-/

namespace Esp32Embroidery.Lib.Scanf

/-! ## Characters -/

/-- A `char`. -/
abbrev Ch := BitVec 8

/-- `isspace` -/
def isSpace (c : Ch) : Bool := c.toNat = 32 || (9 ≤ c.toNat && c.toNat ≤ 13)

/-- The value of a hexadecimal digit. -/
def hexVal (c : Ch) : Option ℕ :=
  if 48 ≤ c.toNat ∧ c.toNat ≤ 57 then some (c.toNat - 48)
  else if 65 ≤ c.toNat ∧ c.toNat ≤ 70 then some (c.toNat - 55)
  else if 97 ≤ c.toNat ∧ c.toNat ≤ 102 then some (c.toNat - 87)
  else none

/-- `0` -/
def zero : Ch := 48

/-- `x` or `X` -/
def isX (c : Ch) : Bool := c.toNat = 120 || c.toNat = 88

/-- `+` or `-` -/
def isSign (c : Ch) : Bool := c.toNat = 43 || c.toNat = 45

def minus : Ch := 45

/-! ## Conversions -/

/-- `%2X` on input that begins with no blank: the value and the rest. -/
def scanDigits : List Ch → Option (BitVec 32 × List Ch)
  | [] => none
  | [a] => (hexVal a).map fun h => (BitVec.ofNat 32 h, [])
  | a :: b :: rest =>
    match hexVal a, hexVal b with
    | some h, some l => some (BitVec.ofNat 32 (16 * h + l), rest)
    | some h, none =>
      if a = zero ∧ isX b then none else some (BitVec.ofNat 32 h, b :: rest)
    | none, some l =>
      if isSign a then
        some (if a = minus then -BitVec.ofNat 32 l else BitVec.ofNat 32 l, rest)
      else none
    | none, none => none

/-- `%2X` -/
def scanHex2 (s : List Ch) : Option (BitVec 32 × List Ch) := scanDigits (s.dropWhile isSpace)

/-- `n + 1` conversions `%2X` with the character `sep` between them. What follows the last
    one is not looked at. -/
def scanList (sep : Ch) : ℕ → List Ch → Option (List (BitVec 32))
  | 0, s => (scanHex2 s).map fun vr => [vr.1]
  | n + 1, s =>
    match scanHex2 s with
    | some (v, c :: rest) => if c = sep then (scanList sep n rest).map (v :: ·) else none
    | _ => none

/-- A hexadecimal digit as `%X` prints it. -/
def hexDigit (n : ℕ) : Ch := BitVec.ofNat 8 (if n < 10 then 48 + n else 55 + n)

/-- `%02X` on a byte. -/
def printHex2 (b : BitVec 8) : List Ch := [hexDigit (b.toNat / 16), hexDigit (b.toNat % 16)]

/-- `%02X` for every byte of a list, with `sep` between them. -/
def printList (sep : Ch) : List (BitVec 8) → List Ch
  | [] => []
  | [b] => printHex2 b
  | b :: bs => printHex2 b ++ sep :: printList sep bs

/-! ## Grammars -/

/-- What `%2X` takes after the blanks. -/
inductive Number : List Ch → Prop
  | one {a : Ch} : (hexVal a).isSome → Number [a]
  | two {a b : Ch} : (hexVal a).isSome → (hexVal b).isSome → Number [a, b]
  | signed {a b : Ch} : isSign a = true → (hexVal b).isSome → Number [a, b]

/-- `n + 1` numbers after any blanks, with `sep` between them, and any text behind. -/
inductive Loose (sep : Ch) : ℕ → List Ch → Prop
  | last {blanks number text : List Ch} : (∀ c ∈ blanks, isSpace c = true) → Number number →
      (number = [zero] → ∀ c ∈ text.head?, isX c = false) → Loose sep 0 (blanks ++ (number ++ text))
  | more {n : ℕ} {blanks number s : List Ch} : (∀ c ∈ blanks, isSpace c = true) →
      Number number → Loose sep n s → Loose sep (n + 1) (blanks ++ (number ++ sep :: s))

/-- Pairs of digits with `sep` between them, and the bytes that they denote. -/
inductive Denotes (sep : Ch) : List Ch → List (BitVec 8) → Prop
  | last {a b : Ch} {h l : ℕ} : hexVal a = some h → hexVal b = some l →
      Denotes sep [a, b] [BitVec.ofNat 8 (16 * h + l)]
  | more {a b : Ch} {h l : ℕ} {s : List Ch} {bytes : List (BitVec 8)} : hexVal a = some h →
      hexVal b = some l → Denotes sep s bytes →
      Denotes sep (a :: b :: sep :: s) (BitVec.ofNat 8 (16 * h + l) :: bytes)

/-! ## Digits -/

theorem isSome_hexVal_iff (c : Ch) : (hexVal c).isSome = true ↔
    (48 ≤ c.toNat ∧ c.toNat ≤ 57) ∨ (65 ≤ c.toNat ∧ c.toNat ≤ 70) ∨
      (97 ≤ c.toNat ∧ c.toNat ≤ 102) := by
  unfold hexVal
  split_ifs with hdigit hupper hlower
  · exact iff_of_true rfl (.inl hdigit)
  · exact iff_of_true rfl (.inr (.inl hupper))
  · exact iff_of_true rfl (.inr (.inr hlower))
  · exact iff_of_false Bool.false_ne_true (by omega)

theorem isSpace_of_hexVal {c : Ch} (h : (hexVal c).isSome = true) : isSpace c = false := by
  rw [isSome_hexVal_iff] at h
  unfold isSpace
  simp
  omega

theorem isSpace_of_isSign {c : Ch} (h : isSign c = true) : isSpace c = false := by
  unfold isSign at h
  unfold isSpace
  simp at h ⊢
  omega

theorem hexVal_of_isSign {c : Ch} (h : isSign c = true) : hexVal c = none := by
  rw [← Option.not_isSome_iff_eq_none, isSome_hexVal_iff]
  unfold isSign at h
  simp at h
  omega

theorem hexVal_hexDigit : ∀ n < 16, hexVal (hexDigit n) = some n := by decide

/-! ## One conversion -/

theorem Number.head {number : List Ch} (h : Number number) :
    ∃ c cs, number = c :: cs ∧ isSpace c = false := by
  cases h with
  | one ha => exact ⟨_, _, rfl, isSpace_of_hexVal ha⟩
  | two ha _ => exact ⟨_, _, rfl, isSpace_of_hexVal ha⟩
  | signed ha _ => exact ⟨_, _, rfl, isSpace_of_isSign ha⟩

theorem dropWhile_blanks {blanks number text : List Ch} (hblanks : ∀ c ∈ blanks, isSpace c = true)
    (hnumber : Number number) : (blanks ++ (number ++ text)).dropWhile isSpace = number ++ text := by
  obtain ⟨c, cs, rfl, hc⟩ := hnumber.head
  rw [List.dropWhile_append_of_pos hblanks, List.cons_append, List.dropWhile_cons_of_neg]
  simp [hc]

/-- What a successful conversion has taken. -/
theorem number_of_scanDigits {s rest : List Ch} {v : BitVec 32}
    (h : scanDigits s = some (v, rest)) :
    ∃ number, Number number ∧ s = number ++ rest ∧
      (number = [zero] → ∀ c ∈ rest.head?, isX c = false) := by
  match s with
  | [] => cases h
  | [a] =>
    obtain ⟨l, ha, hl⟩ := Option.map_eq_some_iff.1 h
    cases hl
    exact ⟨[a], .one (by rw [ha]; rfl), rfl, fun _ c hc => by cases hc⟩
  | a :: b :: rest' =>
    cases ha : hexVal a with
    | some i =>
      cases hb : hexVal b with
      | some j =>
        simp only [scanDigits, ha, hb] at h
        cases h
        exact ⟨[a, b], .two (by rw [ha]; rfl) (by rw [hb]; rfl), rfl,
          fun hzero => by cases hzero⟩
      | none =>
        simp only [scanDigits, ha, hb] at h
        split_ifs at h with hx
        cases h
        refine ⟨[a], .one (by rw [ha]; rfl), rfl, fun hzero c hc => ?_⟩
        cases hc
        exact Bool.eq_false_of_not_eq_true fun hbx => hx ⟨List.head_eq_of_cons_eq hzero, hbx⟩
    | none =>
      cases hb : hexVal b with
      | some j =>
        simp only [scanDigits, ha, hb] at h
        split_ifs at h with hsign hminus
        · cases h
          exact ⟨[a, b], .signed hsign (by rw [hb]; rfl), rfl, fun hzero => by cases hzero⟩
        · cases h
          exact ⟨[a, b], .signed hsign (by rw [hb]; rfl), rfl, fun hzero => by cases hzero⟩
      | none =>
        simp only [scanDigits, ha, hb] at h
        cases h

/-- A number that is not continued by what follows is converted as a whole. -/
theorem scanDigits_number {number text : List Ch} (hnumber : Number number)
    (hsep : ∀ c ∈ text.head?, hexVal c = none ∧ isX c = false) :
    ∃ v, scanDigits (number ++ text) = some (v, text) := by
  cases hnumber with
  | @one a ha =>
    obtain ⟨i, hi⟩ := Option.isSome_iff_exists.1 ha
    cases text with
    | nil =>
      refine ⟨BitVec.ofNat 32 i, ?_⟩
      simp [scanDigits, hi]
    | cons b rest =>
      obtain ⟨hb, hx⟩ := hsep b rfl
      refine ⟨BitVec.ofNat 32 i, ?_⟩
      simp [scanDigits, hi, hb, hx]
  | @two a b ha hb =>
    obtain ⟨i, hi⟩ := Option.isSome_iff_exists.1 ha
    obtain ⟨j, hj⟩ := Option.isSome_iff_exists.1 hb
    refine ⟨BitVec.ofNat 32 (16 * i + j), ?_⟩
    simp [scanDigits, hi, hj]
  | @signed a b ha hb =>
    obtain ⟨j, hj⟩ := Option.isSome_iff_exists.1 hb
    refine ⟨if a = minus then -BitVec.ofNat 32 j else BitVec.ofNat 32 j, ?_⟩
    simp [scanDigits, hexVal_of_isSign ha, hj, ha]

/-- Any number begins a successful conversion, if no `0x` stands there. -/
theorem isSome_scanDigits {number text : List Ch} (hnumber : Number number)
    (hx : number = [zero] → ∀ c ∈ text.head?, isX c = false) :
    (scanDigits (number ++ text)).isSome = true := by
  cases hnumber with
  | @one a ha =>
    obtain ⟨i, hi⟩ := Option.isSome_iff_exists.1 ha
    cases text with
    | nil => simp [scanDigits, hi]
    | cons b rest =>
      cases hb : hexVal b with
      | some j => simp [scanDigits, hi, hb]
      | none =>
        have hnot : ¬(a = zero ∧ isX b = true) := by
          rintro ⟨rfl, hbx⟩
          rw [hx rfl b rfl] at hbx
          cases hbx
        simp [scanDigits, hi, hb, hnot]
  | @two a b ha hb =>
    obtain ⟨i, hi⟩ := Option.isSome_iff_exists.1 ha
    obtain ⟨j, hj⟩ := Option.isSome_iff_exists.1 hb
    simp [scanDigits, hi, hj]
  | @signed a b ha hb =>
    obtain ⟨j, hj⟩ := Option.isSome_iff_exists.1 hb
    simp [scanDigits, hexVal_of_isSign ha, hj, ha]

theorem number_of_scanHex2 {s rest : List Ch} {v : BitVec 32} (h : scanHex2 s = some (v, rest)) :
    ∃ blanks number, (∀ c ∈ blanks, isSpace c = true) ∧ Number number ∧
      s = blanks ++ (number ++ rest) ∧ (number = [zero] → ∀ c ∈ rest.head?, isX c = false) := by
  obtain ⟨number, hnumber, hs, hx⟩ := number_of_scanDigits h
  refine ⟨s.takeWhile isSpace, number, fun c hc => List.mem_takeWhile_imp hc, hnumber, ?_, hx⟩
  rw [← hs, List.takeWhile_append_dropWhile]

/-! ## Lists of conversions -/

section

variable {sep : Ch} (hsep : hexVal sep = none) (hsepX : isX sep = false)

theorem loose_of_scanList {n : ℕ} {s : List Ch} (h : (scanList sep n s).isSome = true) :
    Loose sep n s := by
  induction n generalizing s with
  | zero =>
    rw [scanList, Option.isSome_map] at h
    obtain ⟨⟨v, rest⟩, hscan⟩ := Option.isSome_iff_exists.1 h
    obtain ⟨blanks, number, hblanks, hnumber, rfl, hx⟩ := number_of_scanHex2 hscan
    exact .last hblanks hnumber hx
  | succ n ih =>
    unfold scanList at h
    split at h
    · next v c rest hscan =>
      split_ifs at h with hc
      · rw [Option.isSome_map] at h
        obtain ⟨blanks, number, hblanks, hnumber, rfl, -⟩ := number_of_scanHex2 hscan
        rw [hc]
        exact .more hblanks hnumber (ih h)
      · cases h
    · cases h

include hsep hsepX

/-- The conversions succeed on the inputs of the grammar and on no others. -/
theorem scanList_isSome_iff (n : ℕ) (s : List Ch) :
    (scanList sep n s).isSome = true ↔ Loose sep n s := by
  refine ⟨loose_of_scanList, fun h => ?_⟩
  induction h with
  | last hblanks hnumber hx =>
    rw [scanList, Option.isSome_map, scanHex2, dropWhile_blanks hblanks hnumber]
    exact isSome_scanDigits hnumber hx
  | more hblanks hnumber _ ih =>
    have hnext : ∀ s, ∀ c ∈ (sep :: s).head?, hexVal c = none ∧ isX c = false := by
      intro s c hc
      cases hc
      exact ⟨hsep, hsepX⟩
    obtain ⟨v, hv⟩ := scanDigits_number hnumber (hnext _)
    rw [scanList, scanHex2, dropWhile_blanks hblanks hnumber, hv]
    simp only [if_true, Option.isSome_map]
    exact ih

end

section

variable {sep : Ch}

theorem scanHex2_pair {a b : Ch} {h l : ℕ} (ha : hexVal a = some h) (hb : hexVal b = some l)
    (rest : List Ch) :
    scanHex2 (a :: b :: rest) = some (BitVec.ofNat 32 (16 * h + l), rest) := by
  have hspace : isSpace a = false := isSpace_of_hexVal (by rw [ha]; rfl)
  rw [scanHex2, List.dropWhile_cons_of_neg (by simp [hspace])]
  simp [scanDigits, ha, hb]

/-- A byte that two digits denote, as `uint32_t` and narrowed again. -/
theorem setWidth_ofNat (n : ℕ) : (BitVec.ofNat 32 n).setWidth 8 = BitVec.ofNat 8 n :=
  BitVec.setWidth_ofNat_of_le (by decide) n

/-- Pairs of digits are converted to the bytes that they denote. -/
theorem scanList_of_denotes {s : List Ch} {bytes : List (BitVec 8)} (h : Denotes sep s bytes) :
    ∃ values, scanList sep (bytes.length - 1) s = some values ∧
      values.map (BitVec.setWidth 8) = bytes := by
  induction h with
  | @last a b h l ha hb =>
    refine ⟨[BitVec.ofNat 32 (16 * h + l)], ?_, by rw [List.map_singleton, setWidth_ofNat]⟩
    rw [List.length_singleton, Nat.sub_self, scanList, scanHex2_pair ha hb]
    rfl
  | @more a b h l s bytes ha hb hs ih =>
    obtain ⟨values, hscan, hvalues⟩ := ih
    refine ⟨BitVec.ofNat 32 (16 * h + l) :: values, ?_, by
      rw [List.map_cons, setWidth_ofNat, hvalues]⟩
    have hlength : bytes.length = bytes.length - 1 + 1 := by
      cases hs <;> rfl
    rw [List.length_cons, Nat.add_sub_cancel, hlength, scanList, scanHex2_pair ha hb]
    simp only [if_true, hscan, Option.map_some]

theorem getLast?_of_denotes {s : List Ch} {bytes : List (BitVec 8)} (h : Denotes sep s bytes) :
    ∃ c ∈ s.getLast?, (hexVal c).isSome = true := by
  induction h with
  | @last a b _ _ _ hb => exact ⟨b, rfl, by rw [hb]; rfl⟩
  | @more a b _ _ s _ _ _ hs ih =>
    obtain ⟨c, hc, hhex⟩ := ih
    refine ⟨c, ?_, hhex⟩
    cases hs <;> exact hc

/-- What is printed denotes the bytes. -/
theorem denotes_printList {bytes : List (BitVec 8)} (h : bytes ≠ []) :
    Denotes sep (printList sep bytes) bytes := by
  have hdigits : ∀ b : BitVec 8, hexVal (hexDigit (b.toNat / 16)) = some (b.toNat / 16) ∧
      hexVal (hexDigit (b.toNat % 16)) = some (b.toNat % 16) := by
    intro b
    have hlt := b.isLt
    exact ⟨hexVal_hexDigit _ (by omega), hexVal_hexDigit _ (by omega)⟩
  have hbyte : ∀ b : BitVec 8, BitVec.ofNat 8 (16 * (b.toNat / 16) + b.toNat % 16) = b := by
    intro b
    rw [Nat.div_add_mod, BitVec.ofNat_toNat, BitVec.setWidth_eq]
  induction bytes with
  | nil => exact absurd rfl h
  | cons b bytes ih =>
    obtain ⟨hhi, hlo⟩ := hdigits b
    cases bytes with
    | nil =>
      have hlast : Denotes sep (printHex2 b) [_] := .last hhi hlo
      rw [hbyte] at hlast
      exact hlast
    | cons b' bytes =>
      have hmore := Denotes.more hhi hlo (ih (List.cons_ne_nil b' bytes))
      rw [hbyte] at hmore
      exact hmore

end

end Esp32Embroidery.Lib.Scanf
