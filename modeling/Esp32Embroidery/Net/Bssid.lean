import Esp32Embroidery.Lib.Scanf
import Mathlib.Data.List.OfFn

/-!
# The BSSID setting (`wifi_set_bssid`, `wifi_get_bssid`, `wifi.c`)

The string is read by `sscanf` with six conversions `%2X` and a colon between them. Only the
last character of the string is tested in addition, so blanks, signs, single digits and text
behind the last number are accepted.

Main results:

* `wifiSetBssid_accepts_iff`: the strings that are accepted.
* `bssid_setting_iff`: the setting follows its grammar on a string exactly if this is one of
  the grammar or is not accepted, and every BSSID survives being printed and set.
-/

namespace Esp32Embroidery.Net

open Esp32Embroidery.Lib Esp32Embroidery.Lib.Scanf

/-! ## Model -/

/-- `bssid_t` -/
abbrev Bssid := Fin 6 → BitVec 8

/-- The values of `status_code_t` that are used here. -/
inductive BssidStatus
  | ok
  | invalidStatement
  deriving DecidableEq

def colon : Ch := 58

/-- `LCAPS` -/
def lcaps (c : Ch) : Ch := if 65 ≤ c.toNat ∧ c.toNat ≤ 90 then c ||| 0x20 else c

/-- The test of line 868. -/
def endsInDigit (value : List Ch) : Bool :=
  match value.getLast? with
  | some c =>
    (48 ≤ (lcaps c).toNat && (lcaps c).toNat ≤ 57) ||
      (97 ≤ (lcaps c).toNat && (lcaps c).toNat ≤ 102)
  | none => false

/-- `wifi_set_bssid` (lines 859–880) on `wifi.ap.bssid`. -/
def wifiSetBssid (value : List Ch) (bssid : Bssid) : BssidStatus × Bssid :=
  if value = [] then (.ok, fun _ => 0)
  else
    match scanList colon 5 value with
    | some groups =>
      if endsInDigit value then
        (.ok, fun idx => (groups.getD (5 - idx) 0).setWidth 8)
      else (.invalidStatement, bssid)
    | none => (.invalidStatement, bssid)

/-- `wifi_get_bssid` (lines 882–892). -/
def wifiGetBssid (networkingIsmemnull : List (BitVec 8) → Bool) (bssid : Bssid) : List Ch :=
  if networkingIsmemnull (List.ofFn bssid) then []
  else printList colon [bssid 5, bssid 4, bssid 3, bssid 2, bssid 1, bssid 0]

/-! ## Specification -/

/-- `networking_ismemnull` is true of zeros only. -/
def TestsForZeros (networkingIsmemnull : List (BitVec 8) → Bool) : Prop :=
  ∀ bytes, networkingIsmemnull bytes = true ↔ ∀ b ∈ bytes, b = 0

/-- The bytes in the order in which they are written. -/
def ofBytes (bytes : List (BitVec 8)) : Bssid := fun idx => bytes.getD (5 - idx) 0

/-- Six pairs of digits. -/
def WellFormed (value : List Ch) : Prop := ∃ bytes, Denotes colon value bytes ∧ bytes.length = 6

/-- The setting follows its grammar on the string, whatever was stored. -/
def FollowsGrammar (value : List Ch) : Prop :=
  ∀ stored, (∀ bytes, Denotes colon value bytes → bytes.length = 6 →
      wifiSetBssid value stored = (.ok, ofBytes bytes)) ∧
    (¬WellFormed value → wifiSetBssid value stored = (.invalidStatement, stored))

/-- Six numbers after any blanks, colons between them, any text behind, and a digit at the
    end. -/
def LooseBssid (value : List Ch) : Prop :=
  Loose colon 5 value ∧ ∃ c ∈ value.getLast?, (hexVal c).isSome = true

/-! ## The accepted strings -/

theorem lcaps_digit_iff : ∀ c : Ch, ((48 ≤ (lcaps c).toNat && (lcaps c).toNat ≤ 57) ||
    (97 ≤ (lcaps c).toNat && (lcaps c).toNat ≤ 102)) = (hexVal c).isSome := by
  decide +kernel

theorem endsInDigit_iff (value : List Ch) :
    endsInDigit value = true ↔ ∃ c ∈ value.getLast?, (hexVal c).isSome = true := by
  unfold endsInDigit
  cases value.getLast? with
  | none => simp
  | some c => simp [lcaps_digit_iff]

theorem loose_iff (value : List Ch) :
    (scanList colon 5 value).isSome = true ↔ Loose colon 5 value :=
  scanList_isSome_iff (by decide) (by decide) 5 value

theorem wifiSetBssid_of_loose {value : List Ch} (hne : value ≠ []) (h : LooseBssid value)
    (stored : Bssid) : (wifiSetBssid value stored).1 = .ok := by
  obtain ⟨groups, hscan⟩ := Option.isSome_iff_exists.1 ((loose_iff value).2 h.1)
  unfold wifiSetBssid
  simp only [if_neg hne, hscan, if_pos ((endsInDigit_iff value).2 h.2)]

theorem wifiSetBssid_of_not_loose {value : List Ch} (hne : value ≠ []) (h : ¬LooseBssid value)
    (stored : Bssid) : wifiSetBssid value stored = (.invalidStatement, stored) := by
  unfold wifiSetBssid
  rw [if_neg hne]
  cases hscan : scanList colon 5 value with
  | none => rfl
  | some groups =>
    have hloose : Loose colon 5 value := (loose_iff value).1 (by rw [hscan]; rfl)
    simp only
    rw [if_neg]
    rw [endsInDigit_iff]
    exact fun hend => h ⟨hloose, hend⟩

theorem wifiSetBssid_accepts_iff {value : List Ch} (hne : value ≠ []) (stored : Bssid) :
    (wifiSetBssid value stored).1 = .ok ↔ LooseBssid value := by
  constructor
  · intro hok
    by_contra hnot
    rw [wifiSetBssid_of_not_loose hne hnot] at hok
    cases hok
  · intro h
    exact wifiSetBssid_of_loose hne h stored

/-- A string of the grammar gives its bytes. -/
theorem wifiSetBssid_of_denotes {value : List Ch} {bytes : List (BitVec 8)}
    (h : Denotes colon value bytes) (hlength : bytes.length = 6) (stored : Bssid) :
    wifiSetBssid value stored = (.ok, ofBytes bytes) := by
  obtain ⟨groups, hscan, hgroups⟩ := scanList_of_denotes h
  rw [hlength] at hscan
  have hne : value ≠ [] := by
    rintro rfl
    cases h
  unfold wifiSetBssid ofBytes
  simp only [if_neg hne, hscan, if_pos ((endsInDigit_iff value).2 (getLast?_of_denotes h))]
  congr 1
  funext idx
  rw [← hgroups, List.getD_eq_getElem?_getD, List.getD_eq_getElem?_getD, List.getElem?_map]
  cases groups[5 - (idx : ℕ)]? <;> rfl

theorem followsGrammar_iff {value : List Ch} (hne : value ≠ []) :
    FollowsGrammar value ↔ (LooseBssid value → WellFormed value) := by
  constructor
  · intro h hloose
    by_contra hnot
    have hreject := (h fun _ => 0).2 hnot
    have hok := wifiSetBssid_of_loose hne hloose fun _ => 0
    rw [hreject] at hok
    cases hok
  · intro h stored
    refine ⟨fun bytes hbytes hlength => wifiSetBssid_of_denotes hbytes hlength stored, ?_⟩
    intro hnot
    exact wifiSetBssid_of_not_loose hne (fun hloose => hnot (h hloose)) stored

theorem wifiSetBssid_get {networkingIsmemnull : List (BitVec 8) → Bool}
    (hnull : TestsForZeros networkingIsmemnull) (bssid stored : Bssid) :
    wifiSetBssid (wifiGetBssid networkingIsmemnull bssid) stored = (.ok, bssid) := by
  unfold wifiGetBssid
  split_ifs with hzero
  · have hbssid : bssid = fun _ => 0 := funext (List.forall_mem_ofFn_iff.1 ((hnull _).1 hzero))
    rw [hbssid]
    rfl
  · rw [wifiSetBssid_of_denotes (denotes_printList (List.cons_ne_nil _ _)) rfl]
    congr 1
    funext idx
    match idx with
    | 0 | 1 | 2 | 3 | 4 | 5 => rfl

/-- For every string that is not empty: the setting follows its grammar exactly if the string
    is of the grammar, or is not of the loose one. Every BSSID can be printed and set again. -/
theorem bssid_setting_iff {networkingIsmemnull : List (BitVec 8) → Bool}
    (hnull : TestsForZeros networkingIsmemnull) (c : Ch) (cs : List Ch) (bssid stored : Bssid) :
    (FollowsGrammar (c :: cs) ↔ (LooseBssid (c :: cs) → WellFormed (c :: cs))) ∧
      wifiSetBssid (wifiGetBssid networkingIsmemnull bssid) stored = (.ok, bssid) :=
  ⟨followsGrammar_iff (List.cons_ne_nil c cs), wifiSetBssid_get hnull bssid stored⟩

/-- Five zeros and a one, which are printed and set. -/
theorem bssid_setting_one :
    wifiSetBssid (wifiGetBssid (fun bytes => bytes.all (· = 0)) fun idx => if idx = 0 then 1 else 0)
      (fun _ => 0) = (.ok, fun idx => if idx = 0 then 1 else 0) :=
  (bssid_setting_iff (fun bytes => by simp) 49 [] _ _).2

/-- The characters of a string. -/
def chars (s : String) : List Ch := s.toList.map fun c => BitVec.ofNat 8 c.toNat

/-- Nine single digits are accepted, for the address `01:02:03:04:05:06`. -/
theorem bssid_single_digits :
    (chars "1:2:3:4:5:6:7:8:9").length = 17 ∧ ¬FollowsGrammar (chars "1:2:3:4:5:6:7:8:9") := by
  refine ⟨by decide, fun h => ?_⟩
  have hvalue : chars "1:2:3:4:5:6:7:8:9" =
      [49, 58, 50, 58, 51, 58, 52, 58, 53, 58, 54, 58, 55, 58, 56, 58, 57] := by decide
  have hnot : ¬WellFormed (chars "1:2:3:4:5:6:7:8:9") := by
    rintro ⟨bytes, hbytes, -⟩
    rw [hvalue] at hbytes
    cases hbytes
  have hreject := congrArg Prod.fst ((h fun _ => 0).2 hnot)
  exact absurd hreject (by decide)

end Esp32Embroidery.Net
